import SharedCells.Digest.Fingerprint
import SharedCells.Feed
import SharedCells.KeyRange
import SharedCells.Script.Keep
import SharedCells.Script.Sets
import SharedCells.Text.Describe

/-!
# Requests to copy-on-write maps

The objects of a script over maps are maps over one kind of store, snapshots of them, iterators
and cursors over entries, keys or values, and, over a sorted store, sub-maps. A request names the
kind of its target: the map itself, one of its three views, an iterator, a cursor or a sub-map.
-/

namespace SharedCells.Script

/-- What an iterator or a cursor yields. -/
inductive Item (K V : Type) where
  | key (k : K)
  | value (v : V)
  | entry (k : K) (v : V)

namespace Item

variable {K V : Type}

def ofEntry (e : K × V) : Item K V := .entry e.1 e.2

/-- Whether two items are of one sort and give the same bytes to a digest, so that also a value
that differs from itself is the same item. -/
def same [Digest.Fingerprint K] [Digest.Fingerprint V] : Item K V → Item K V → Bool
  | key k, key k' => Digest.bytes k == Digest.bytes k'
  | value v, value v' => Digest.bytes v == Digest.bytes v'
  | entry k v, entry k' v' =>
    Digest.bytes k == Digest.bytes k' && Digest.bytes v == Digest.bytes v'
  | _, _ => false

instance [Text.Describe K] [Text.Describe V] : Text.Describe (Item K V) where
  describe
    | key k => Text.describe k
    | value v => Text.describe v
    | entry k v => Text.describe (k, v)

end Item

/-- A question of a scripted predicate: what was given, and the size and version of a map that
was looked at meanwhile. -/
structure Asked (K V : Type) where
  key? : Option K
  value? : Option V
  seen? : Option (Nat × Nat)

inductive OnMap (K V : Type) where
  | make (how : Making) (initial : List (K × V))
  | fromJson (text : String)
  | clone (i : Nat)
  | size (i : Nat)
  | isEmpty (i : Nat)
  | get (i : Nat) (k : K)
  | contains (i : Nat) (k : K)
  | put (i : Nat) (k : K) (v : V)
  | remove (i : Nat) (k : K)
  | putAll (i : Nat) (feed : Feed (K × V))
  | clear (i : Nat)
  | retain (i : Nat) (keep : Keep K V) (observe : Bool)
  | copies
  | equal (i j : Nat)
  | equalStore (i : Nat) (es : List (K × V))
  | digest (i : Nat)
  | describe (i : Nat)
  | toJson (i : Nat)
  | entries (i : Nat)
  | iter (i : Nat)
  | cursor (i : Nat)
  | snapshot (i : Nat)
  | showSnapshot (s : Nat)
  /-- Threads that each put the entries of one list. -/
  | race (i : Nat) (parts : List (List (K × V)))

/-- A request to the keys of a map. -/
inductive OnKeys (K V : Type) where
  | size
  | isEmpty
  | contains (k : K)
  | remove (k : K)
  | removeAll (feed : Feed K)
  | retain (keep : Keep K V) (observe : Bool)
  | clear
  | insert (k : K)
  | insertAll (feed : Feed K)
  | equal (j : Nat)
  | equalUnordered (ks : List K)
  | equalSorted (ks : List K)
  | digest
  | describe
  | iter
  | cursor

/-- A request to the values of a map. -/
inductive OnValues (K V : Type) where
  | size
  | isEmpty
  | contains (v : V)
  | remove (v : V)
  | removeAll (vs : List V)
  | retain (keep : Keep K V) (observe : Bool)
  | clear
  | insert (v : V)
  | insertAll (feed : Feed V)
  | describe
  | iter
  | cursor

/-- A request to the entries of a map. -/
inductive OnEntries (K V : Type) where
  | size
  | isEmpty
  | contains (k : K) (v : V)
  | remove (k : K) (v : V)
  | removeAll (es : List (K × V))
  | retain (keep : Keep K V) (observe : Bool)
  | clear
  | insert (k : K) (v : V)
  | insertAll (feed : Feed (K × V))
  | equal (j : Nat)
  | equalStore (es : List (K × V))
  | digest
  | describe
  | iter
  | cursor

inductive OnIter where
  | next
  | nextBack
  | size
  | rest
  | restBackwards
  | clone
  | describe

inductive OnCursor (K V : Type) where
  | next
  | size
  | remove
  /-- Goes to the end and removes on the way the items that are among some others. -/
  | sweep (chosen : List (Item K V))

/-- A request to a map, to something made from it, or to one of its views. -/
inductive MapRequest (K V : Type) where
  | map (request : OnMap K V)
  | keys (i : Nat) (request : OnKeys K V)
  | values (i : Nat) (request : OnValues K V)
  | entries (i : Nat) (request : OnEntries K V)
  | iter (n : Nat) (request : OnIter)
  | cursor (n : Nat) (request : OnCursor K V)

/-- A part of a map or of a sub-map. -/
inductive Part (K : Type) where
  | head (stop : K)
  | tail (start : K)
  | between (start stop : K)
  | range (lower upper : Bound K)

inductive OnPart (K V : Type) where
  | get (k : K)
  | contains (k : K)
  | remove (k : K)
  | inRange (k : K)
  | size
  | isEmpty
  | firstKey
  | lastKey
  | entries
  | iter
  | keys
  | values
  | cursor
  | put (k : K) (v : V)
  | removeAll (ks : List K)
  | clear
  /-- Drops entries; a map may be looked at meanwhile. -/
  | retain (keep : Keep K V) (observed : Option Nat)
  | equal (j : Nat)
  | equalStore (es : List (K × V))
  | describe
  | clone
  | part (p : Part K)

/-- A request to a map over a sorted store. -/
inductive SortedRequest (K V : Type) where
  | plain (request : MapRequest K V)
  | firstKey (i : Nat)
  | lastKey (i : Nat)
  | firstEntry (i : Nat)
  | lastEntry (i : Nat)
  | part (i : Nat) (p : Part K)
  | onPart (n : Nat) (request : OnPart K V)

/-- What a sweep did with an item. -/
inductive Swept (K V : Type) where
  | kept (item : Item K V)
  | removed (item : Item K V)
  | refused (e : ViewError)

/-- The sorts of objects of a script over maps. -/
inductive ObjectSort where
  | map
  | iter
  | cursor
  | snapshot

inductive MapAnswer (K V : Type) where
  | done
  | made (sort : ObjectSort) (i : Nat)
  | part (n : Nat) (r : KeyRange K)
  | flag (b : Bool)
  | count (n : Nat)
  | item (item? : Option (Item K V))
  | items (items : List (Item K V))
  | length (n : Nat)
  /-- Size and version of the live map at each entry that a source yielded. -/
  | yielded (seen : List (Nat × Nat))
  | retained (changed : Bool) (asked : List (Asked K V))
  | swept (items : List (Swept K V))
  | text (s : String)
  | digest (d : UInt64)
  | refused (e : ViewError)
  | panicked (p : Panic)
  | unreadable

end SharedCells.Script
