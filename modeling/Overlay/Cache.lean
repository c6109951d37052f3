import Overlay.Table

/-!
# Bounded caches

A cache keeps values by key, bounded in number and in age.  Its entries sit in the slots of an arena; each
is linked to the one used next before it and next after it, and the cache remembers the most and the least
recently used one, the empty slots, and the slot of each key.  When a new entry makes the cache too large,
the least recently used one leaves.  Age counts from the last insertion, or also from the last look-up,
as the `ExpiryPolicy` says.

Expiry is lazy: an expired entry stays in its slot until a look-up of its key or `takeExpired` removes it,
but no look-up hands it out.  `entries` lists what is stored in order of recency, most recent first.
-/

namespace Overlay

universe u v

/-- What lets an entry's age count anew. -/
inductive ExpiryPolicy where
  /-- Insertion only. -/
  | afterWrite
  /-- Insertion and look-up. -/
  | afterAccess
deriving DecidableEq

/-- An entry in its slot, with its neighbours in order of recency. -/
structure CacheEntry (κ : Type u) (ν : Type v) where
  key : κ
  value : ν
  touchedAt : Nat
  newer : Option Nat
  older : Option Nat
deriving DecidableEq

/-- Values by key, bounded in number and in age. -/
structure Cache (κ : Type u) (ν : Type v) where
  slots : List (Option (CacheEntry κ ν))
  /-- The empty slots, the one emptied last in front. -/
  free : List Nat
  index : Table κ Nat
  newest : Option Nat
  oldest : Option Nat
  policy : ExpiryPolicy
  ttl : Option Nat
  /-- The most entries that are kept; zero for no bound. -/
  maxSize : Nat

namespace Cache

variable {κ : Type u} {ν : Type v} [DecidableEq κ]

def empty (policy : ExpiryPolicy) (ttl : Option Nat) (maxSize : Nat) : Cache κ ν :=
  ⟨[], [], Table.empty, none, none, policy, ttl, maxSize⟩

/-- The count of stored entries, expired ones included. -/
def size (c : Cache κ ν) : Nat := c.index.size

def isEmpty (c : Cache κ ν) : Bool := c.size = 0

/-! ## Slots and links -/

def entryAt (c : Cache κ ν) (s : Nat) : Option (CacheEntry κ ν) := c.slots[s]?.join

def changeAt (c : Cache κ ν) (s : Nat) (f : CacheEntry κ ν → CacheEntry κ ν) : Cache κ ν :=
  { c with slots := c.slots.modify s (Option.map f) }

def changeAt? (c : Cache κ ν) (s : Option Nat) (f : CacheEntry κ ν → CacheEntry κ ν) : Cache κ ν :=
  match s with
  | some s => c.changeAt s f
  | none => c

def pushFront (c : Cache κ ν) (s : Nat) : Cache κ ν :=
  let front := c.newest
  let c := c.changeAt s fun e => { e with newer := none, older := front }
  let c := c.changeAt? front fun e => { e with newer := some s }
  { c with newest := some s, oldest := c.oldest.or (some s) }

def unlink (c : Cache κ ν) (s : Nat) : Cache κ ν :=
  match c.entryAt s with
  | none => c
  | some e =>
    let c := match e.newer with
      | some n => c.changeAt n fun x => { x with older := e.older }
      | none => { c with newest := e.older }
    let c := match e.older with
      | some o => c.changeAt o fun x => { x with newer := e.newer }
      | none => { c with oldest := e.newer }
    c.changeAt s fun x => { x with newer := none, older := none }

def moveToFront (c : Cache κ ν) (s : Nat) : Cache κ ν := (c.unlink s).pushFront s

/-- Lets the age of an entry count anew. -/
def stamp (c : Cache κ ν) (s now : Nat) : Cache κ ν := c.changeAt s fun e => { e with touchedAt := now }

def removeAt (c : Cache κ ν) (s : Nat) : Option (κ × ν) × Cache κ ν :=
  match c.entryAt s with
  | none => (none, c)
  | some e =>
    let c := c.unlink s
    (some (e.key, e.value),
      { c with slots := c.slots.set s none, index := c.index.erase e.key, free := s :: c.free })

/-- Puts an entry into an empty slot or a new one, and tells which. -/
def occupy (c : Cache κ ν) (e : CacheEntry κ ν) : Nat × Cache κ ν :=
  match c.free with
  | s :: free => (s, { c with slots := c.slots.set s (some e), free := free })
  | [] => (c.slots.length, { c with slots := c.slots ++ [some e] })

/-! ## Look-ups -/

def expired (c : Cache κ ν) (e : CacheEntry κ ν) (now : Nat) : Bool :=
  match c.ttl with
  | some ttl => ttl ≤ now - e.touchedAt
  | none => false

/-- The value of a key, without any effect on recency or age. -/
def peek (c : Cache κ ν) (k : κ) (now : Nat) : Option ν :=
  (c.index.get? k).bind fun s =>
    (c.entryAt s).bind fun e => if c.expired e now then none else some e.value

def contains (c : Cache κ ν) (k : κ) (now : Nat) : Bool := (c.peek k now).isSome

/-- The value of a key, which becomes the most recently used one; an expired entry is removed. -/
def get (c : Cache κ ν) (k : κ) (now : Nat) : Option ν × Cache κ ν :=
  match c.index.get? k with
  | none => (none, c)
  | some s =>
    match c.entryAt s with
    | none => (none, c)
    | some e =>
      if c.expired e now then (none, (c.removeAt s).2)
      else
        let c := c.moveToFront s
        (some e.value, if c.policy = .afterAccess then c.stamp s now else c)

def modify (c : Cache κ ν) (k : κ) (f : ν → ν) : Cache κ ν :=
  c.changeAt? (c.index.get? k) fun e => { e with value := f e.value }

/-! ## Insertion and removal -/

/-- What an insertion answers: the value replaced, the entry that had to leave, and the cache. -/
structure Insertion (κ : Type u) (ν : Type v) where
  previous : Option ν
  evicted : Option (κ × ν)
  cache : Cache κ ν

def insert (c : Cache κ ν) (k : κ) (v : ν) (now : Nat) : Insertion κ ν :=
  match c.index.get? k with
  | some s =>
    let c := (c.moveToFront s).stamp s now
    ⟨(c.entryAt s).map (·.value), none, c.changeAt s fun e => { e with value := v }⟩
  | none =>
    let (s, c) := c.occupy ⟨k, v, now, none, none⟩
    let c := ({ c with index := c.index.insert k s } : Cache κ ν).pushFront s
    if 0 < c.maxSize ∧ c.maxSize < c.size then
      match c.oldest with
      | some o => let (evicted, c) := c.removeAt o; ⟨none, evicted, c⟩
      | none => ⟨none, none, c⟩
    else ⟨none, none, c⟩

def remove (c : Cache κ ν) (k : κ) : Option ν × Cache κ ν :=
  match c.index.get? k with
  | some s => let (removed, c) := c.removeAt s; (removed.map (·.2), c)
  | none => (none, c)

def expiredSlots (c : Cache κ ν) (now : Nat) : List Nat :=
  (List.range c.slots.length).filter fun s => (c.entryAt s).any fun e => c.expired e now

def removeAll (c : Cache κ ν) : List Nat → List (κ × ν) × Cache κ ν
  | [] => ([], c)
  | s :: rest =>
    let (removed, c) := c.removeAt s
    let (others, c) := c.removeAll rest
    (removed.toList ++ others, c)

/-- Removes the expired entries, in the order of their slots. -/
def takeExpired (c : Cache κ ν) (now : Nat) : List (κ × ν) × Cache κ ν :=
  c.removeAll (c.expiredSlots now)

def clear (c : Cache κ ν) : Cache κ ν := empty c.policy c.ttl c.maxSize

/-! ## Order of recency -/

/-- At most `n` entries from a slot on, each followed by the one used next before it. -/
def chain (c : Cache κ ν) : Nat → Option Nat → List (CacheEntry κ ν)
  | 0, _ => []
  | _, none => []
  | n + 1, some s =>
    match c.entryAt s with
    | some e => e :: c.chain n e.older
    | none => []

def entries (c : Cache κ ν) : List (CacheEntry κ ν) := c.chain c.slots.length c.newest

def live (c : Cache κ ν) (now : Nat) : List (κ × ν) :=
  (c.entries.filter fun e => !c.expired e now).map fun e => (e.key, e.value)

end Cache

end Overlay
