import Pisces.Chained

/-! # The hash table

`util-hashtable.c`, for any hash function, with `==` for `eq_fn` and every
allocation succeeding.
-/

namespace Pisces.Util

/-- `struct hash_entry` -/
structure Entry where
  key : UInt64
  value : UInt64
  hash : UInt32
  deriving DecidableEq

/-- `struct hashtable`; a chain of entries is a list. -/
structure Hashtable where
  tableLength : UInt32
  table : List (List Entry)
  entryCount : UInt32
  loadLimit : UInt32
  primeIndex : Nat
  deriving DecidableEq

def primes : List UInt32 :=
  [53, 97, 193, 389, 769, 1543, 3079, 6151, 12289, 24593, 49157, 98317, 196613, 393241, 786433,
    1572869, 3145739, 6291469, 12582917, 25165843, 50331653, 100663319, 201326611, 402653189,
    805306457, 1610612741]

def loadFactors : List UInt32 :=
  [35, 64, 126, 253, 500, 1003, 2002, 3999, 7988, 15986, 31953, 63907, 127799, 255607, 511182,
    1022365, 2044731, 4089455, 8178897, 16357798, 32715575, 65431158, 130862298, 261724573,
    523449198, 1046898282]

/-- `hash_long`, in the build without `__64BIT__` -/
def hashLong (val : UInt64) : UInt32 :=
  (val * 0x9e370001).toUInt32

def indexFor (tableLength hashValue : UInt32) : UInt32 :=
  hashValue % tableLength

variable (hashFn : UInt64 → UInt32)

def doHash (key : UInt64) : UInt32 :=
  let i := hashFn key
  let i := i + ~~~(i <<< 9)
  let i := i ^^^ ((i >>> 14) ||| (i <<< 18))
  let i := i + (i <<< 4)
  i ^^^ ((i >>> 10) ||| (i <<< 22))

def createHtable (minSize : UInt32) : Option Hashtable :=
  if minSize > (1 : UInt32) <<< 30 then none
  else
    let primeIndex := primes.findIdx (· > minSize)
    let size := primes.getD primeIndex 53
    some
      { tableLength := size
        table := List.replicate size.toNat []
        entryCount := 0
        loadLimit := loadFactors.getD primeIndex 0
        primeIndex := primeIndex }

/-- Where an entry belongs in a table of some length. -/
def slot (tableLength : UInt32) (entry : Entry) : Nat :=
  (indexFor tableLength entry.hash).toNat

/-- `hashtable_expand` -/
def hashtableExpand (htable : Hashtable) : Hashtable :=
  if htable.primeIndex = primes.length - 1 then htable
  else
    let newSize := primes.getD (htable.primeIndex + 1) 0
    { htable with
      tableLength := newSize
      table := Chained.rehash (slot newSize) newSize.toNat htable.table
      loadLimit := loadFactors.getD (htable.primeIndex + 1) 0
      primeIndex := htable.primeIndex + 1 }

def htableInsert (htable : Hashtable) (key value : UInt64) : Hashtable :=
  let counted := { htable with entryCount := htable.entryCount + 1 }
  let roomy := if counted.entryCount > counted.loadLimit then hashtableExpand counted else counted
  { roomy with
    table := Chained.push (slot roomy.tableLength) roomy.table ⟨key, value, doHash hashFn key⟩ }

/-- The comparison of the search loops. -/
def hits (key : UInt64) (entry : Entry) : Bool :=
  doHash hashFn key == entry.hash && key == entry.key

def chainOf (htable : Hashtable) (key : UInt64) : Nat :=
  (indexFor htable.tableLength (doHash hashFn key)).toNat

/-- `htable_search`: the value found, or NULL. -/
def htableSearch (htable : Hashtable) (key : UInt64) : UInt64 :=
  match (htable.table.getD (chainOf hashFn htable key) []).find? (hits hashFn key) with
  | some entry => entry.value
  | none => 0

/-- `htable_remove`, whose result the file calls ignore. -/
def htableRemove (htable : Hashtable) (key : UInt64) : Hashtable :=
  match (htable.table.getD (chainOf hashFn htable key) []).find? (hits hashFn key) with
  | some _ =>
      { htable with
        table := Chained.pop (hits hashFn key) (chainOf hashFn htable key) htable.table
        entryCount := htable.entryCount - 1 }
  | none => htable

namespace Hashtable

def entries (htable : Hashtable) : List Entry :=
  htable.table.flatten

def keys (htable : Hashtable) : List UInt64 :=
  htable.entries.map (·.key)

/-- The representation: the length is one of the primes and every entry is in
the chain of its hash. -/
structure WellFormed (htable : Hashtable) : Prop where
  inTable : htable.primeIndex < primes.length
  prime : htable.tableLength = primes.getD htable.primeIndex 0
  length : htable.table.length = htable.tableLength.toNat
  placed : Chained.Placed (slot htable.tableLength) htable.table
  hashed : ∀ entry ∈ htable.entries, entry.hash = doHash hashFn entry.key

end Hashtable

variable {hashFn} {htable : Hashtable} {key value : UInt64}

theorem primes_positive : ∀ index < primes.length, 0 < (primes.getD index 0).toNat := by
  decide

theorem slot_lt {tableLength : UInt32} (positive : 0 < tableLength.toNat) (entry : Entry) :
    slot tableLength entry < tableLength.toNat := by
  rw [slot, indexFor, UInt32.toNat_mod]
  exact Nat.mod_lt _ positive

namespace Hashtable.WellFormed

theorem positive (wellFormed : htable.WellFormed hashFn) : 0 < htable.tableLength.toNat := by
  rw [wellFormed.prime]
  exact primes_positive _ wellFormed.inTable

theorem fits (wellFormed : htable.WellFormed hashFn) (entry : Entry) :
    slot htable.tableLength entry < htable.table.length := by
  rw [wellFormed.length]
  exact slot_lt wellFormed.positive entry

theorem chainOf_lt (wellFormed : htable.WellFormed hashFn) (key : UInt64) :
    chainOf hashFn htable key < htable.table.length :=
  wellFormed.fits ⟨key, 0, doHash hashFn key⟩

end Hashtable.WellFormed

theorem hits_slot (htable : Hashtable) (entry : Entry) (accepted : hits hashFn key entry = true) :
    slot htable.tableLength entry = chainOf hashFn htable key := by
  simp only [hits, Bool.and_eq_true, beq_iff_eq] at accepted
  rw [slot, ← accepted.1, chainOf]

theorem hits_key {entry : Entry} (accepted : hits hashFn key entry = true) : entry.key = key := by
  simp only [hits, Bool.and_eq_true, beq_iff_eq] at accepted
  exact accepted.2.symm

theorem hits_of_key (wellFormed : htable.WellFormed hashFn) {entry : Entry}
    (member : entry ∈ htable.entries) (named : entry.key = key) : hits hashFn key entry = true := by
  have hashed := wellFormed.hashed entry member
  simp [hits, hashed, named]

theorem createHtable_wellFormed {minSize : UInt32} (created : createHtable minSize = some htable) :
    htable.WellFormed hashFn ∧ htable.entries = [] ∧ htable.entryCount = 0 := by
  simp only [createHtable] at created
  split at created
  · cases created
  rename_i bounded
  have largest : (1610612741 : UInt32) > minSize := by
    have limit : minSize.toNat ≤ 1073741824 := by
      have := UInt32.not_lt.mp bounded
      exact UInt32.le_iff_toNat_le.mp this
    exact UInt32.lt_iff_toNat_lt.mpr (Nat.lt_of_le_of_lt limit (by decide))
  have inside : primes.findIdx (· > minSize) < primes.length := by
    apply List.findIdx_lt_length_of_exists
    exact ⟨1610612741, by decide, by simpa using largest⟩
  cases created
  have empty : (List.replicate (primes.getD (primes.findIdx (· > minSize)) 53).toNat
      ([] : List Entry)).flatten = [] := by
    simp
  refine ⟨⟨inside, ?_, by simp, Chained.placed_replicate _, ?_⟩, empty, rfl⟩
  · simp only [List.getD_eq_getElem?_getD, List.getElem?_eq_getElem inside, Option.getD_some]
  · intro entry member
    rw [Hashtable.entries, empty] at member
    cases member

theorem hashtableExpand_wellFormed (wellFormed : htable.WellFormed hashFn) :
    (hashtableExpand htable).WellFormed hashFn ∧
      (hashtableExpand htable).entries.Perm htable.entries ∧
      (hashtableExpand htable).entryCount = htable.entryCount := by
  unfold hashtableExpand
  split
  · exact ⟨wellFormed, List.Perm.refl _, rfl⟩
  · rename_i smaller
    have next : htable.primeIndex + 1 < primes.length := by
      have inTable := wellFormed.inTable
      omega
    have positive := primes_positive _ next
    have moved := Chained.rehash_perm fun entry (_ : entry ∈ htable.table.flatten) => slot_lt positive entry
    refine ⟨⟨next, rfl, Chained.rehash_length, Chained.placed_rehash, ?_⟩, moved, rfl⟩
    intro entry member
    exact wellFormed.hashed entry (moved.mem_iff.mp member)

theorem push_wellFormed (wellFormed : htable.WellFormed hashFn) (key value : UInt64) :
    Hashtable.WellFormed hashFn { htable with
      table := Chained.push (slot htable.tableLength) htable.table (.mk key value (doHash hashFn key)) } ∧
      (Chained.push (slot htable.tableLength) htable.table (.mk key value (doHash hashFn key))).flatten.Perm
        (.mk key value (doHash hashFn key) :: htable.entries) := by
  have added := Chained.push_perm (wellFormed.fits ⟨key, value, doHash hashFn key⟩)
  refine ⟨⟨wellFormed.inTable, wellFormed.prime, by simpa using wellFormed.length,
    wellFormed.placed.push _, ?_⟩, added⟩
  intro entry member
  rcases List.mem_cons.mp (added.mem_iff.mp member) with rfl | older
  · rfl
  · exact wellFormed.hashed entry older

theorem htableInsert_spec (wellFormed : htable.WellFormed hashFn) (key value : UInt64) :
    (htableInsert hashFn htable key value).WellFormed hashFn ∧
      (htableInsert hashFn htable key value).entries.Perm
        (⟨key, value, doHash hashFn key⟩ :: htable.entries) ∧
      (htableInsert hashFn htable key value).entryCount = htable.entryCount + 1 := by
  have counted : Hashtable.WellFormed hashFn { htable with entryCount := htable.entryCount + 1 } :=
    ⟨wellFormed.inTable, wellFormed.prime, wellFormed.length, wellFormed.placed, wellFormed.hashed⟩
  simp only [htableInsert]
  split
  · obtain ⟨roomy, moved, count⟩ := hashtableExpand_wellFormed counted
    obtain ⟨grown, added⟩ := push_wellFormed roomy key value
    exact ⟨grown, added.trans (moved.cons _), count⟩
  · obtain ⟨grown, added⟩ := push_wellFormed counted key value
    exact ⟨grown, added, rfl⟩

theorem find_isSome_iff (wellFormed : htable.WellFormed hashFn) :
    ((htable.table.getD (chainOf hashFn htable key) []).find? (hits hashFn key)).isSome = true ↔
      key ∈ htable.keys := by
  rw [Chained.find_chain wellFormed.placed (hits_slot htable) (wellFormed.chainOf_lt key),
    Hashtable.keys, List.mem_map]
  constructor
  · rintro ⟨entry, member, accepted⟩
    exact ⟨entry, member, hits_key accepted⟩
  · rintro ⟨entry, member, named⟩
    exact ⟨entry, member, hits_of_key wellFormed member named⟩

theorem htableSearch_absent (wellFormed : htable.WellFormed hashFn) (absent : key ∉ htable.keys) :
    htableSearch hashFn htable key = 0 := by
  have missing : (htable.table.getD (chainOf hashFn htable key) []).find? (hits hashFn key) = none := by
    rw [← Option.not_isSome_iff_eq_none, find_isSome_iff wellFormed]
    exact absent
  simp only [htableSearch, missing]

theorem htableSearch_present (wellFormed : htable.WellFormed hashFn) (present : key ∈ htable.keys) :
    ∃ entry ∈ htable.entries, entry.key = key ∧ htableSearch hashFn htable key = entry.value := by
  obtain ⟨entry, found⟩ := Option.isSome_iff_exists.mp ((find_isSome_iff wellFormed).mpr present)
  have accepted := List.find?_some found
  have chain : htable.table.getD (chainOf hashFn htable key) [] ∈ htable.table := by
    rw [List.getD_eq_getElem?_getD, List.getElem?_eq_getElem (wellFormed.chainOf_lt key), Option.getD_some]
    exact List.getElem_mem _
  refine ⟨entry, List.mem_flatten.mpr ⟨_, chain, List.mem_of_find?_eq_some found⟩, hits_key accepted, ?_⟩
  simp only [htableSearch, found]

theorem htableRemove_spec (wellFormed : htable.WellFormed hashFn) (present : key ∈ htable.keys) :
    (htableRemove hashFn htable key).WellFormed hashFn ∧
      (∃ taken, taken.key = key ∧
        (taken :: (htableRemove hashFn htable key).entries).Perm htable.entries) ∧
      (htableRemove hashFn htable key).entryCount = htable.entryCount - 1 := by
  obtain ⟨found, some⟩ := Option.isSome_iff_exists.mp ((find_isSome_iff wellFormed).mpr present)
  obtain ⟨entry, member, named⟩ := List.mem_map.mp present
  obtain ⟨taken, accepted, removed⟩ := Chained.pop_perm (hits_slot htable)
    (hits_of_key wellFormed member named) wellFormed.placed member
  simp only [htableRemove, some]
  refine ⟨⟨wellFormed.inTable, wellFormed.prime, ?_, wellFormed.placed.pop, ?_⟩,
    ⟨taken, hits_key accepted, removed⟩, trivial⟩
  · simpa [Chained.pop] using wellFormed.length
  · intro other remains
    exact wellFormed.hashed other (removed.mem_iff.mp (List.mem_cons_of_mem _ remains))

end Pisces.Util
