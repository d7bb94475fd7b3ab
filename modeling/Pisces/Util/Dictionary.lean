import Mathlib.Data.Finmap
import Pisces.Fs.Allocation

/-! # The hash table as a dictionary

The operations of `util-hashtable.c` that change values, count and free, and
sessions of calls seen as sessions of a finite map.
-/

namespace Pisces.Util

open Fs Transition

variable (hashFn : UInt64 → UInt32)

/-- What the search loop does at an entry. -/
def amendEntry (change : UInt64 → UInt64) (key : UInt64) (entry : Entry) : Option Entry :=
  if hits hashFn key entry then some { entry with value := change entry.value } else none

/-- The search loop that `htable_change`, `htable_inc` and `htable_dec` have in common -/
def htableUpdate (change : UInt64 → UInt64) (htable : Hashtable) (key : UInt64) : Int × Hashtable :=
  match (htable.table.getD (chainOf hashFn htable key) []).find? (hits hashFn key) with
  | some _ =>
      (-1, { htable with
        table := Chained.amend (amendEntry hashFn change key) (chainOf hashFn htable key) htable.table })
  | none => (0, htable)

/-- What `kfree` is called with for one key or value. -/
def freedOf (free : Bool) (pointer : UInt64) : List UInt64 :=
  if free then [pointer] else []

def htableChange (htable : Hashtable) (key value : UInt64) : Int × Hashtable :=
  htableUpdate hashFn (fun _ => value) htable key

/-- The value that `htable_change` frees. -/
def htableChangeFreed (htable : Hashtable) (key : UInt64) (freeValue : Bool) : List UInt64 :=
  match (htable.table.getD (chainOf hashFn htable key) []).find? (hits hashFn key) with
  | some entry => freedOf freeValue entry.value
  | none => []

def htableInc (htable : Hashtable) (key value : UInt64) : Int × Hashtable :=
  htableUpdate hashFn (· + value) htable key

def htableDec (htable : Hashtable) (key value : UInt64) : Int × Hashtable :=
  htableUpdate hashFn (· - value) htable key

def htableCount (htable : Hashtable) : UInt32 :=
  htable.entryCount

/-- The result of `htable_remove` and the key that it frees. -/
def htableRemoveResult (htable : Hashtable) (key : UInt64) (freeKey : Bool) : UInt64 × List UInt64 :=
  match (htable.table.getD (chainOf hashFn htable key) []).find? (hits hashFn key) with
  | some entry => (entry.value, freedOf freeKey entry.key)
  | none => (0, [])

/-- The result of `htable_insert`. -/
def htableInsertResult (allocations : Allocations) : Int :=
  if allocations.entry then -1 else 0

inductive Freed where
  | key (pointer : UInt64)
  | value (pointer : UInt64)
  | entry (entry : Entry)
  | table
  | htable
  deriving DecidableEq

/-- `free_htable`: the calls of `kfree`. -/
def freeHtable (htable : Hashtable) (freeValues freeKeys : Bool) : List Freed :=
  htable.table.flatMap (fun chain => chain.flatMap fun entry =>
    (if freeKeys then [.key entry.key] else []) ++ (if freeValues then [.value entry.value] else []) ++ [.entry entry])
    ++ [.table, .htable]

/-! ## Sessions -/

inductive Operation where
  | insert (key value : UInt64) (allocations : Allocations)
  | change (key value : UInt64) (freeValue : Bool)
  | inc (key value : UInt64)
  | dec (key value : UInt64)
  | search (key : UInt64)
  | remove (key : UInt64) (freeKey : Bool)
  | count
  deriving DecidableEq

/-- What an operation returns and frees. -/
inductive Result where
  | status (ret : Int) (freed : List UInt64)
  | value (value : UInt64) (freed : List UInt64)
  | count (count : UInt32)
  deriving DecidableEq

/-- A table with the results of its operations, newest first. -/
structure Session where
  htable : Hashtable
  results : List Result

def Session.step (session : Session) : Operation → Option Session
  | .insert key value allocations =>
      (htableInsertWith allocations hashFn session.htable key value).map fun htable =>
        ⟨htable, .status (htableInsertResult allocations) [] :: session.results⟩
  | .change key value freeValue =>
      let changed := htableChange hashFn session.htable key value
      some ⟨changed.2, .status changed.1 (htableChangeFreed hashFn session.htable key freeValue) :: session.results⟩
  | .inc key value =>
      let changed := htableInc hashFn session.htable key value
      some ⟨changed.2, .status changed.1 [] :: session.results⟩
  | .dec key value =>
      let changed := htableDec hashFn session.htable key value
      some ⟨changed.2, .status changed.1 [] :: session.results⟩
  | .search key => some ⟨session.htable, .value (htableSearch hashFn session.htable key) [] :: session.results⟩
  | .remove key freeKey =>
      let removed := htableRemoveResult hashFn session.htable key freeKey
      some ⟨htableRemove hashFn session.htable key, .value removed.1 removed.2 :: session.results⟩
  | .count => some ⟨session.htable, .count (htableCount session.htable) :: session.results⟩

def system (minSize : UInt32) : System Session Operation where
  initial session := createHtable minSize = some session.htable ∧ session.results = []
  step := Session.step hashFn

/-- A key is inserted once, and a table that has to grow gets the larger table, or
no memory to reallocate either. -/
def Proper (session : Session) : Operation → Prop
  | .insert key _ allocations =>
      key ∉ session.htable.keys ∧
        (Grows session.htable → allocations.newTable = true ∨ allocations.fallback = false)
  | _ => True

/-! ## Finite maps -/

abbrev Dictionary := Finmap fun _ : UInt64 => UInt64

/-- A finite map with the results of its operations, newest first. -/
structure MapSession where
  dictionary : Dictionary
  results : List Result

/-- Changes the value of a key that there is. -/
def updateKey (dictionary : Dictionary) (key : UInt64) (change : UInt64 → UInt64) (free : Bool) : Result × Dictionary :=
  match dictionary.lookup key with
  | some value => (.status (-1) (freedOf free value), dictionary.insert key (change value))
  | none => (.status 0 [], dictionary)

/-- What an operation does to a finite map. -/
def serve (dictionary : Dictionary) : Operation → Result × Dictionary
  | .insert key value allocations =>
      if allocations.entry then (.status (-1) [], dictionary.insert key value) else (.status 0 [], dictionary)
  | .change key value freeValue => updateKey dictionary key (fun _ => value) freeValue
  | .inc key value => updateKey dictionary key (· + value) false
  | .dec key value => updateKey dictionary key (· - value) false
  | .search key => (.value ((dictionary.lookup key).getD 0) [], dictionary)
  | .remove key freeKey =>
      match dictionary.lookup key with
      | some value => (.value value (freedOf freeKey key), dictionary.erase key)
      | none => (.value 0 [], dictionary)
  | .count => (.count (UInt32.ofNat dictionary.keys.card), dictionary)

def mapSystem : System MapSession Operation where
  initial session := session.dictionary = ∅ ∧ session.results = []
  step session operation :=
    some ⟨(serve session.dictionary operation).2, (serve session.dictionary operation).1 :: session.results⟩

def Entry.pair (entry : Entry) : Sigma fun _ : UInt64 => UInt64 :=
  ⟨entry.key, entry.value⟩

def dictionaryOf (entries : List Entry) : Dictionary :=
  (entries.map Entry.pair).toFinmap

def keysOf (entries : List Entry) : List UInt64 :=
  entries.map (·.key)

variable {entries rest others : List Entry} {entry : Entry} {key value : UInt64}

theorem pairs_keys (entries : List Entry) : (entries.map Entry.pair).keys = keysOf entries := by
  rw [List.keys, List.map_map]
  rfl

theorem lookup_dictionaryOf (distinct : (keysOf entries).Nodup) :
    (dictionaryOf entries).lookup key = some value ↔ ∃ entry ∈ entries, entry.key = key ∧ entry.value = value := by
  have noRepeats : (entries.map Entry.pair).NodupKeys := by
    rw [List.NodupKeys, pairs_keys]
    exact distinct
  rw [dictionaryOf, Finmap.dlookup_list_toFinmap, ← Option.mem_def, List.mem_dlookup_iff noRepeats, List.mem_map]
  constructor
  · rintro ⟨entry, member, same⟩
    cases same
    exact ⟨entry, member, rfl, rfl⟩
  · rintro ⟨entry, member, rfl, rfl⟩
    exact ⟨entry, member, rfl⟩

theorem mem_dictionaryOf : key ∈ dictionaryOf entries ↔ key ∈ keysOf entries := by
  rw [← Finmap.lookup_isSome, dictionaryOf, Finmap.dlookup_list_toFinmap, List.dlookup_isSome, pairs_keys]

theorem dictionaryOf_perm (distinct : (keysOf entries).Nodup) (same : entries.Perm others) :
    dictionaryOf entries = dictionaryOf others := by
  apply Finmap.ext_lookup
  intro key
  have otherDistinct : (keysOf others).Nodup := (same.map _).nodup_iff.mp distinct
  ext value
  rw [lookup_dictionaryOf distinct, lookup_dictionaryOf otherDistinct]
  constructor
  · rintro ⟨entry, member, named⟩
    exact ⟨entry, same.mem_iff.mp member, named⟩
  · rintro ⟨entry, member, named⟩
    exact ⟨entry, same.mem_iff.mpr member, named⟩

theorem dictionaryOf_cons (entry : Entry) (rest : List Entry) :
    dictionaryOf (entry :: rest) = (dictionaryOf rest).insert entry.key entry.value := by
  apply Finmap.ext_lookup
  intro key
  by_cases same : key = entry.key
  · subst same
    rw [Finmap.lookup_insert, dictionaryOf, Finmap.dlookup_list_toFinmap]
    exact List.dlookup_cons_eq _ _ _
  · rw [Finmap.lookup_insert_of_ne _ same, dictionaryOf, dictionaryOf, Finmap.dlookup_list_toFinmap,
      Finmap.dlookup_list_toFinmap]
    exact List.dlookup_cons_ne _ _ same

theorem dictionaryOf_erase (distinct : (keysOf (entry :: rest)).Nodup) :
    (dictionaryOf (entry :: rest)).erase entry.key = dictionaryOf rest := by
  have fresh : entry.key ∉ keysOf rest := (List.nodup_cons.mp distinct).1
  apply Finmap.ext_lookup
  intro key
  by_cases same : key = entry.key
  · subst same
    rw [Finmap.lookup_erase]
    exact (Finmap.lookup_eq_none.mpr (mem_dictionaryOf.not.mpr fresh)).symm
  · rw [Finmap.lookup_erase_ne same, dictionaryOf_cons, Finmap.lookup_insert_of_ne _ same]

theorem dictionaryOf_card (distinct : (keysOf entries).Nodup) : (dictionaryOf entries).keys.card = entries.length := by
  have same : (dictionaryOf entries).keys = (keysOf entries).toFinset := by
    ext key
    rw [Finmap.mem_keys, mem_dictionaryOf, List.mem_toFinset]
  rw [same, List.toFinset_card_of_nodup distinct, keysOf, List.length_map]

/-! ## Tables as finite maps -/

/-- A table in which each key stands once and that counts its entries. -/
structure Tidy (htable : Hashtable) : Prop where
  wellFormed : htable.WellFormed hashFn
  distinct : (keysOf htable.entries).Nodup
  count : htable.entryCount = UInt32.ofNat htable.entries.length

variable {hashFn} {htable : Hashtable}

theorem ofNat_succ (count : Nat) : UInt32.ofNat count + 1 = UInt32.ofNat (count + 1) :=
  (UInt32.ofNat_add count 1).symm

theorem Tidy.found_mem (tidy : Tidy hashFn htable)
    (found : (htable.table.getD (chainOf hashFn htable key) []).find? (hits hashFn key) = some entry) :
    entry ∈ htable.entries := by
  have chain : htable.table.getD (chainOf hashFn htable key) [] ∈ htable.table := by
    rw [List.getD_eq_getElem?_getD, List.getElem?_eq_getElem (tidy.wellFormed.chainOf_lt key), Option.getD_some]
    exact List.getElem_mem _
  exact List.mem_flatten.mpr ⟨_, chain, List.mem_of_find?_eq_some found⟩

theorem Tidy.lookup (tidy : Tidy hashFn htable) (key : UInt64) :
    (dictionaryOf htable.entries).lookup key =
      ((htable.table.getD (chainOf hashFn htable key) []).find? (hits hashFn key)).map (·.value) := by
  have present := @find_isSome_iff hashFn htable key tidy.wellFormed
  cases found : (htable.table.getD (chainOf hashFn htable key) []).find? (hits hashFn key) with
  | none =>
      rw [found] at present
      rw [Option.map_none, Finmap.lookup_eq_none, mem_dictionaryOf]
      exact fun member => nomatch present.mpr member
  | some entry =>
      rw [Option.map_some, lookup_dictionaryOf tidy.distinct]
      exact ⟨entry, tidy.found_mem found, hits_key (List.find?_some found), rfl⟩

theorem Tidy.search (tidy : Tidy hashFn htable) (key : UInt64) :
    htableSearch hashFn htable key = ((dictionaryOf htable.entries).lookup key).getD 0 := by
  rw [tidy.lookup, htableSearch]
  cases (htable.table.getD (chainOf hashFn htable key) []).find? (hits hashFn key) <;> rfl

/-- Exchanging one entry for another of the same key. -/
theorem Tidy.exchange {after : Hashtable} (taken changed : Entry) (tidy : Tidy hashFn htable)
    (wellFormed : after.WellFormed hashFn) (sameKey : changed.key = taken.key)
    (before : (taken :: rest).Perm htable.entries) (now : (changed :: rest).Perm after.entries)
    (count : after.entryCount = htable.entryCount) :
    Tidy hashFn after ∧
      dictionaryOf after.entries = (dictionaryOf htable.entries).insert taken.key changed.value := by
  have distinct : (keysOf (taken :: rest)).Nodup := (before.map _).nodup_iff.mpr tidy.distinct
  have changedDistinct : (keysOf (changed :: rest)).Nodup := by
    rw [keysOf, List.map_cons, sameKey]
    exact distinct
  have length := before.length_eq.symm.trans (show (taken :: rest).length = (changed :: rest).length from rfl)
  refine ⟨⟨wellFormed, (now.map _).nodup_iff.mp changedDistinct, ?_⟩, ?_⟩
  · rw [count, tidy.count, length, now.length_eq]
  · rw [← dictionaryOf_perm changedDistinct now, dictionaryOf_cons, ← dictionaryOf_perm distinct before,
      dictionaryOf_cons, sameKey]
    exact (Finmap.insert_insert ..).symm

theorem amendEntry_eq {change : UInt64 → UInt64} {changed : Entry}
    (amended : amendEntry hashFn change key entry = some changed) :
    hits hashFn key entry = true ∧ changed = { entry with value := change entry.value } := by
  rw [amendEntry] at amended
  split at amended
  · rename_i accepted
    cases amended
    exact ⟨accepted, rfl⟩
  · cases amended

theorem amend_wellFormed {change : UInt64 → UInt64} {taken changed : Entry} (wellFormed : htable.WellFormed hashFn)
    (amended : amendEntry hashFn change key taken = some changed) (before : (taken :: rest).Perm htable.entries)
    (after : (changed :: rest).Perm
      (Chained.amend (amendEntry hashFn change key) (chainOf hashFn htable key) htable.table).flatten) :
    Hashtable.WellFormed hashFn { htable with
      table := Chained.amend (amendEntry hashFn change key) (chainOf hashFn htable key) htable.table } := by
  obtain ⟨_, rfl⟩ := amendEntry_eq amended
  refine ⟨wellFormed.inTable, wellFormed.prime, ?_, ?_, ?_⟩
  · simpa [Chained.amend] using wellFormed.length
  · apply wellFormed.placed.amend
    intro entry changed amended
    obtain ⟨_, rfl⟩ := amendEntry_eq amended
    rfl
  · intro entry member
    rcases List.mem_cons.mp (after.mem_iff.mpr member) with rfl | older
    · exact wellFormed.hashed taken (before.mem_iff.mp (List.mem_cons_self ..))
    · exact wellFormed.hashed entry (before.mem_iff.mp (List.mem_cons_of_mem _ older))

theorem Tidy.update (tidy : Tidy hashFn htable) (change : UInt64 → UInt64) (key : UInt64) (free : Bool) :
    Tidy hashFn (htableUpdate hashFn change htable key).2 ∧
      updateKey (dictionaryOf htable.entries) key change free =
        (.status (htableUpdate hashFn change htable key).1 (htableChangeFreed hashFn htable key free),
          dictionaryOf (htableUpdate hashFn change htable key).2.entries) := by
  have lookup := tidy.lookup key
  cases found : (htable.table.getD (chainOf hashFn htable key) []).find? (hits hashFn key) with
  | none =>
      rw [found, Option.map_none] at lookup
      simp only [htableUpdate, htableChangeFreed, updateKey, found, lookup]
      exact ⟨tidy, trivial⟩
  | some entry =>
      rw [found, Option.map_some] at lookup
      have accepted : amendEntry hashFn change key entry = some { entry with value := change entry.value } :=
        if_pos (List.find?_some found)
      obtain ⟨taken, changed, rest, amended, before, after⟩ := Chained.amend_perm
        (fun other changed amended => hits_slot htable other (amendEntry_eq amended).1) accepted
        tidy.wellFormed.placed (tidy.found_mem found)
      have wellFormed := amend_wellFormed tidy.wellFormed amended before after
      obtain ⟨hit, rfl⟩ := amendEntry_eq amended
      obtain ⟨kept, same⟩ :=
        tidy.exchange taken { taken with value := change taken.value } wellFormed rfl before after rfl
      have value : taken.value = entry.value := by
        have there := (lookup_dictionaryOf tidy.distinct).mpr
          ⟨taken, before.mem_iff.mp (List.mem_cons_self ..), hits_key hit, rfl⟩
        rw [lookup] at there
        exact (Option.some.inj there).symm
      simp only [htableUpdate, htableChangeFreed, updateKey, found, lookup]
      refine ⟨kept, ?_⟩
      rw [same, hits_key hit, value]

/-- The table that an entry goes into -/
theorem roomy_spec {allocations : Allocations} (wellFormed : htable.WellFormed hashFn)
    (safe : Grows htable → allocations.newTable = true ∨ allocations.fallback = false) :
    ∃ roomy, (if htable.entryCount + 1 > htable.loadLimit then
        hashtableExpandWith allocations { htable with entryCount := htable.entryCount + 1 }
        else some { htable with entryCount := htable.entryCount + 1 }) = some roomy ∧ roomy.WellFormed hashFn ∧
      roomy.entries.Perm htable.entries ∧ roomy.entryCount = htable.entryCount + 1 := by
  have counted : Hashtable.WellFormed hashFn { htable with entryCount := htable.entryCount + 1 } :=
    ⟨wellFormed.inTable, wellFormed.prime, wellFormed.length, wellFormed.placed, wellFormed.hashed⟩
  split
  · rename_i full
    exact hashtableExpandWith_spec allocations counted fun smaller => safe ⟨full, smaller⟩
  · exact ⟨_, rfl, counted, .refl _, rfl⟩

/-- The new entry in the table that it goes into, or the count put back -/
def entered (hashFn : UInt64 → UInt32) (allocations : Allocations) (key value : UInt64) (roomy : Hashtable) : Hashtable :=
  if allocations.entry then
    { roomy with table := Chained.push (slot roomy.tableLength) roomy.table ⟨key, value, doHash hashFn key⟩ }
  else { roomy with entryCount := roomy.entryCount - 1 }

theorem htableInsertWith_eq {allocations : Allocations} {roomy : Hashtable} (value : UInt64)
    (grown : (if htable.entryCount + 1 > htable.loadLimit then
      hashtableExpandWith allocations { htable with entryCount := htable.entryCount + 1 }
        else some { htable with entryCount := htable.entryCount + 1 }) = some roomy) :
    htableInsertWith allocations hashFn htable key value = some (entered hashFn allocations key value roomy) := by
  unfold htableInsertWith entered
  split at grown
  · rename_i full
    simp only [if_pos full, grown, Option.bind_eq_bind, Option.bind_some]
    split <;> rfl
  · rename_i room
    cases grown
    simp only [if_neg room]
    split <;> rfl

theorem Tidy.insert {allocations : Allocations} (value : UInt64) (tidy : Tidy hashFn htable)
    (fresh : key ∉ htable.keys) (safe : Grows htable → allocations.newTable = true ∨ allocations.fallback = false) :
    ∃ after, htableInsertWith allocations hashFn htable key value = some after ∧ Tidy hashFn after ∧
      serve (dictionaryOf htable.entries) (.insert key value allocations) =
        (.status (htableInsertResult allocations) [], dictionaryOf after.entries) := by
  obtain ⟨roomy, grown, wellFormed, moved, counted⟩ := roomy_spec tidy.wellFormed safe
  have distinct : (keysOf roomy.entries).Nodup := (moved.map _).nodup_iff.mpr tidy.distinct
  refine ⟨_, htableInsertWith_eq value grown, ?_⟩
  by_cases room : allocations.entry = true
  · obtain ⟨pushed, added⟩ := push_wellFormed wellFormed key value
    have whole : entered hashFn allocations key value roomy = { roomy with
        table := Chained.push (slot roomy.tableLength) roomy.table ⟨key, value, doHash hashFn key⟩ } := if_pos room
    have freshNow : (keysOf ({ key, value, hash := doHash hashFn key } :: roomy.entries)).Nodup := by
      refine List.nodup_cons.mpr ⟨?_, distinct⟩
      exact fun member => fresh ((moved.map _).mem_iff.mp member)
    have addedDistinct := (added.map _).nodup_iff.mpr freshNow
    have length := added.length_eq
    rw [List.length_cons, moved.length_eq] at length
    rw [whole]
    refine ⟨⟨pushed, addedDistinct, ?_⟩, ?_⟩
    · rw [Hashtable.entries, length, ← ofNat_succ, ← tidy.count]
      exact counted
    · have same : dictionaryOf (Chained.push (slot roomy.tableLength) roomy.table
          ⟨key, value, doHash hashFn key⟩).flatten = (dictionaryOf htable.entries).insert key value := by
        rw [dictionaryOf_perm addedDistinct added, dictionaryOf_cons, dictionaryOf_perm distinct moved]
      simp only [serve, if_pos room, htableInsertResult]
      exact congrArg (Prod.mk _) same.symm
  · have whole : entered hashFn allocations key value roomy = { roomy with entryCount := roomy.entryCount - 1 } :=
      if_neg room
    have back : roomy.entryCount - 1 = htable.entryCount := by rw [counted, UInt32.add_sub_cancel]
    rw [whole]
    refine ⟨⟨⟨wellFormed.inTable, wellFormed.prime, wellFormed.length, wellFormed.placed, wellFormed.hashed⟩, distinct,
      back.trans (tidy.count.trans (congrArg UInt32.ofNat moved.length_eq.symm))⟩, ?_⟩
    simp only [serve, if_neg room, htableInsertResult]
    exact congrArg (Prod.mk _) (dictionaryOf_perm distinct moved).symm

theorem Tidy.remove (tidy : Tidy hashFn htable) (key : UInt64) (freeKey : Bool) :
    Tidy hashFn (htableRemove hashFn htable key) ∧
      serve (dictionaryOf htable.entries) (.remove key freeKey) =
        (.value (htableRemoveResult hashFn htable key freeKey).1 (htableRemoveResult hashFn htable key freeKey).2,
          dictionaryOf (htableRemove hashFn htable key).entries) := by
  have lookup := tidy.lookup key
  cases found : (htable.table.getD (chainOf hashFn htable key) []).find? (hits hashFn key) with
  | none =>
      rw [found, Option.map_none] at lookup
      simp only [htableRemove, htableRemoveResult, serve, found, lookup]
      exact ⟨tidy, trivial⟩
  | some entry =>
      rw [found, Option.map_some] at lookup
      have named := hits_key (List.find?_some found)
      have present : key ∈ htable.keys := by
        rw [← named]
        exact List.mem_map_of_mem (tidy.found_mem found)
      obtain ⟨wellFormed, ⟨taken, sameKey, removed⟩, counted⟩ := htableRemove_spec tidy.wellFormed present
      have distinct : (keysOf (taken :: (htableRemove hashFn htable key).entries)).Nodup :=
        (removed.map _).nodup_iff.mpr tidy.distinct
      refine ⟨⟨wellFormed, (List.nodup_cons.mp distinct).2, ?_⟩, ?_⟩
      · rw [counted, tidy.count, ← removed.length_eq, List.length_cons, ← ofNat_succ, UInt32.add_sub_cancel]
      · rw [← dictionaryOf_erase distinct, dictionaryOf_perm distinct removed, sameKey]
        simp only [serve, htableRemoveResult, found, lookup, named]

def Session.map (session : Session) : MapSession where
  dictionary := dictionaryOf session.htable.entries
  results := session.results

theorem nothing_freed (htable : Hashtable) (key : UInt64) : htableChangeFreed hashFn htable key false = [] := by
  unfold htableChangeFreed freedOf
  split <;> rfl

theorem step_updates {session next : Session} {operation : Operation} {change : UInt64 → UInt64} {free : Bool}
    (tidy : Tidy hashFn session.htable)
    (serves : serve (dictionaryOf session.htable.entries) operation =
      updateKey (dictionaryOf session.htable.entries) key change free)
    (htable : next.htable = (htableUpdate hashFn change session.htable key).2)
    (results : next.results = .status (htableUpdate hashFn change session.htable key).1
      (htableChangeFreed hashFn session.htable key free) :: session.results) :
    Tidy hashFn next.htable ∧ mapSystem.step session.map operation = some next.map := by
  obtain ⟨kept, same⟩ := tidy.update change key free
  rw [htable]
  refine ⟨kept, ?_⟩
  simp only [mapSystem, Session.map, serves, same, htable, results]

/-- A call answers as the finite map does. -/
theorem step_simulates {session : Session} {operation : Operation} (tidy : Tidy hashFn session.htable)
    (proper : Proper session operation) :
    ∃ next, session.step hashFn operation = some next ∧ Tidy hashFn next.htable ∧
      mapSystem.step session.map operation = some next.map := by
  cases operation with
  | insert key value allocations =>
      obtain ⟨after, inserted, kept, same⟩ := tidy.insert value proper.1 proper.2
      refine ⟨⟨after, _⟩, by rw [Session.step, inserted]; rfl, kept, ?_⟩
      simp only [mapSystem, Session.map, same]
  | change key value freeValue => exact ⟨_, rfl, step_updates tidy rfl rfl rfl⟩
  | inc key value => exact ⟨_, rfl, step_updates tidy rfl rfl (by rw [nothing_freed]; rfl)⟩
  | dec key value => exact ⟨_, rfl, step_updates tidy rfl rfl (by rw [nothing_freed]; rfl)⟩
  | search key =>
      refine ⟨_, rfl, tidy, ?_⟩
      simp only [mapSystem, Session.map, serve, tidy.search]
  | remove key freeKey =>
      obtain ⟨kept, same⟩ := tidy.remove key freeKey
      refine ⟨⟨htableRemove hashFn session.htable key, _⟩, rfl, kept, ?_⟩
      simp only [mapSystem, Session.map, same]
  | count =>
      refine ⟨_, rfl, tidy, ?_⟩
      simp only [mapSystem, Session.map, serve, htableCount, dictionaryOf_card tidy.distinct, tidy.count]

theorem path_simulates {before after : Session} (tidy : Tidy hashFn before.htable) {minSize : UInt32}
    (path : (system hashFn minSize).Path Proper before after) :
    Tidy hashFn after.htable ∧ mapSystem.Path (fun _ _ => True) before.map after.map := by
  refine path.project (fun session => Tidy hashFn session.htable) Session.map tidy ?_
  intro session operation next tidy proper stepped
  obtain ⟨simulated, same, kept, matched⟩ := step_simulates tidy proper
  have equal : simulated = next := Option.some.inj (same.symm.trans stepped)
  subst equal
  exact ⟨kept, .single trivial matched⟩

theorem createHtable_tidy {minSize : UInt32} (created : createHtable minSize = some htable) : Tidy hashFn htable := by
  obtain ⟨wellFormed, empty, count⟩ := @createHtable_wellFormed hashFn htable minSize created
  refine ⟨wellFormed, ?_, ?_⟩
  · rw [empty]
    exact List.nodup_nil
  · rw [empty, count]
    rfl

/-! ## Freeing -/

def Freed.key? : Freed → Option UInt64
  | .key pointer => some pointer
  | _ => none

def Freed.entry? : Freed → Option Entry
  | .entry entry => some entry
  | _ => none

theorem freeHtable_eq (htable : Hashtable) (freeValues freeKeys : Bool) :
    freeHtable htable freeValues freeKeys = htable.entries.flatMap (fun entry =>
      (if freeKeys then [.key entry.key] else []) ++ (if freeValues then [.value entry.value] else []) ++ [.entry entry])
      ++ [.table, .htable] := by
  rw [freeHtable, Hashtable.entries, List.flatten_eq_flatMap, List.flatMap_assoc]
  rfl

theorem freed_keys (htable : Hashtable) (freeValues freeKeys : Bool) :
    (freeHtable htable freeValues freeKeys).filterMap Freed.key? = if freeKeys then keysOf htable.entries else [] := by
  rw [freeHtable_eq, List.filterMap_append]
  induction htable.entries with
  | nil => cases freeKeys <;> rfl
  | cons entry rest ih =>
      rw [List.flatMap_cons, List.filterMap_append, List.append_assoc, ih]
      cases freeKeys <;> cases freeValues <;> rfl

theorem freed_entries (htable : Hashtable) (freeValues freeKeys : Bool) :
    (freeHtable htable freeValues freeKeys).filterMap Freed.entry? = htable.entries := by
  rw [freeHtable_eq, List.filterMap_append]
  induction htable.entries with
  | nil => rfl
  | cons entry rest ih =>
      rw [List.flatMap_cons, List.filterMap_append, List.append_assoc, ih]
      cases freeKeys <;> cases freeValues <;> rfl

/-- `free_htable` frees every key of the map once, if it is asked to, and one entry for each. -/
structure Releases (dictionary : Dictionary) (freeKeys : Bool) (freed : List Freed) : Prop where
  once : (freed.filterMap Freed.key?).Nodup
  keys : ∀ key, key ∈ freed.filterMap Freed.key? ↔ freeKeys = true ∧ key ∈ dictionary
  entriesOnce : (freed.filterMap Freed.entry?).Nodup
  entries : (freed.filterMap Freed.entry?).length = dictionary.keys.card

theorem Tidy.releases (tidy : Tidy hashFn htable) (freeValues freeKeys : Bool) :
    Releases (dictionaryOf htable.entries) freeKeys (freeHtable htable freeValues freeKeys) where
  once := by
    rw [freed_keys]
    split
    · exact tidy.distinct
    · exact List.nodup_nil
  keys key := by
    rw [freed_keys, mem_dictionaryOf]
    cases freeKeys <;> simp
  entriesOnce := by
    rw [freed_entries]
    exact tidy.distinct.of_map
  entries := by rw [freed_entries, dictionaryOf_card tidy.distinct]

/-- As long as a key that is there is not inserted again, a table is a finite map
through all its growing: sessions have the map's results, a count is the number
of keys, and freeing the table frees what the map holds. -/
theorem htable_refines_dictionary {minSize : UInt32} {session : Session}
    (reached : (system hashFn minSize).Reachable Proper session) :
    mapSystem.Reachable (fun _ _ => True) session.map ∧
      (∀ operation, Proper session operation → ∃ next, session.step hashFn operation = some next ∧
        mapSystem.step session.map operation = some next.map) ∧
      ∀ freeValues freeKeys,
        Releases session.map.dictionary freeKeys (freeHtable session.htable freeValues freeKeys) := by
  obtain ⟨start, ⟨created, fresh⟩, path⟩ := reached
  have tidyStart : Tidy hashFn start.htable := createHtable_tidy created
  obtain ⟨tidy, simulated⟩ := path_simulates tidyStart path
  refine ⟨⟨start.map, ⟨?_, fresh⟩, simulated⟩, ?_, tidy.releases⟩
  · have empty := (@createHtable_wellFormed hashFn start.htable minSize created).2.1
    rw [Session.map, empty]
    rfl
  · intro operation proper
    obtain ⟨next, stepped, _, matched⟩ := step_simulates tidy proper
    exact ⟨next, stepped, matched⟩

def isProper (session : Session) : Operation → Bool
  | .insert key _ allocations =>
      !session.htable.keys.contains key && (allocations.newTable || !allocations.fallback)
  | _ => true

theorem isProper_sound {session : Session} {operation : Operation} (proper : isProper session operation = true) :
    Proper session operation := by
  cases operation with
  | insert key value allocations =>
      simp only [isProper, Bool.and_eq_true, Bool.or_eq_true, Bool.not_eq_true', List.contains_eq_mem,
        decide_eq_false_iff_not] at proper
      exact ⟨proper.1, fun _ => proper.2⟩
  | change | inc | dec | search | remove | count => trivial

def emptySession : Session where
  htable := ⟨53, List.replicate 53 [], 0, 35, 0⟩
  results := []

/-- Forty keys, for which the table grows once, then one of them is counted up and removed. -/
theorem htable_refines_dictionary_grown :
    ∃ session, (system hashLong 0).Reachable Proper session ∧ session.htable.tableLength = 97 ∧
      session.results.take 4 = [.count 39, .value 0 [], .value 17 [7], .status (-1) []] ∧
      mapSystem.Reachable (fun _ _ => True) session.map := by
  obtain ⟨session, executed, observed⟩ := Option.map_eq_some_iff.mp
    (show ((system hashLong 0).run isProper emptySession
      ((List.range 40).map (fun index => .insert (UInt64.ofNat index) 10 plenty) ++
        [.inc 7 7, .remove 7 true, .search 7, .count])).map
          (fun session => (session.htable.tableLength, session.results.take 4)) =
            some (97, [.count 39, .value 0 [], .value 17 [7], .status (-1) []]) by decide +kernel)
  have reached : (system hashLong 0).Reachable Proper session :=
    ⟨emptySession, ⟨rfl, rfl⟩, System.run_path isProper_sound executed⟩
  obtain ⟨length, results⟩ := Prod.mk.inj observed
  exact ⟨session, reached, length, results, (htable_refines_dictionary reached).1⟩

end Pisces.Util
