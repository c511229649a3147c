import StellarConduit.Message.Types

/-!
# Sliding Bloom filters

`SlidingBloomFilter` of `gossip/bloom.rs`: two Bloom filters, of which the current one takes
the insertions and the previous one is still consulted.  When `capacity` insertions have
gone into the current filter, it becomes the previous one.

The underlying filter is the `bloomfilter` crate's, a parameter with the interface `Bloom`.
-/

namespace StellarConduit

/-- The interface of a Bloom filter over keys `K`. -/
class Bloom (β : Type) (K : outParam Type) where
  newForFpRate : ℕ → Float → β
  check : β → K → Bool
  set : β → K → β

structure SlidingBloomFilter (β : Type) where
  current : β
  previous : β
  capacity : ℕ
  fpRate : Float
  insertCount : ℕ

namespace SlidingBloomFilter

variable {β K : Type} [Bloom β K]

def new (capacityPerWindow : ℕ) (fpRate : Float) : SlidingBloomFilter β where
  current := Bloom.newForFpRate capacityPerWindow fpRate
  previous := Bloom.newForFpRate capacityPerWindow fpRate
  capacity := capacityPerWindow
  fpRate := fpRate
  insertCount := 0

def check (f : SlidingBloomFilter β) (messageId : K) : Bool :=
  Bloom.check f.current messageId || Bloom.check f.previous messageId

def rotateIfFull (f : SlidingBloomFilter β) : SlidingBloomFilter β :=
  if f.insertCount ≥ f.capacity then
    { f with
      previous := f.current
      current := Bloom.newForFpRate f.capacity f.fpRate
      insertCount := 0 }
  else f

/-- Add an id that is not reported as seen. -/
def add (f : SlidingBloomFilter β) (messageId : K) : SlidingBloomFilter β :=
  if !f.check messageId then
    let f := f.rotateIfFull
    { f with
      current := Bloom.set f.current messageId
      insertCount := f.insertCount + 1 }
  else f

/-- `check_and_add`: the answer says whether the id was reported as seen. -/
def checkAndAdd (f : SlidingBloomFilter β) (messageId : K) : Bool × SlidingBloomFilter β :=
  if f.check messageId then (true, f)
  else
    let f := f.rotateIfFull
    (false,
      { f with
        current := Bloom.set f.current messageId
        insertCount := f.insertCount + 1 })

end SlidingBloomFilter

/-- A filter that remembers its keys exactly. -/
structure ExactFilter (K : Type) where
  keys : List K

instance {K : Type} [DecidableEq K] : Bloom (ExactFilter K) K where
  newForFpRate _ _ := ⟨[]⟩
  check f k := decide (k ∈ f.keys)
  set f k := ⟨k :: f.keys⟩

end StellarConduit
