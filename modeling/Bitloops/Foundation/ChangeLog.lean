import Mathlib.Data.List.AList
import Mathlib.Logic.Function.Basic
import Bitloops.Foundation.LastWins
import Bitloops.Foundation.OrderBy

/-!
# Logs of keyed changes

A change sets the entry of its key in a map, or clears it.  Applying a log of changes in order
leaves under each key what the last change of the key says, so a log may be *compacted*: the
changes that a later change of their key follows are dropped, and what is kept may be applied in
any order.

* `applyChanges_apply`: what a log leaves under a key.
* `applyChanges_perm`: a log with one change for each key may be reordered.
* `lastRow_intoValues`: the values of a map that was filled by inserting one change after the
  other are the last changes of their keys.
-/

namespace Bitloops

variable {ι κ ν : Type*}

section Apply

variable [DecidableEq κ] {key : ι → κ} {value : ι → Option ν} {log log' : List ι}
  {state : κ → Option ν} {k : κ}

/-- One change after the other. -/
def applyChanges (key : ι → κ) (value : ι → Option ν) (log : List ι) (state : κ → Option ν) :
    κ → Option ν :=
  log.foldl (fun state change => Function.update state (key change) (value change)) state

@[simp] theorem applyChanges_nil : applyChanges key value [] state = state := rfl

@[simp] theorem applyChanges_cons {change : ι} :
    applyChanges key value (change :: log) state =
      applyChanges key value log (Function.update state (key change) (value change)) := rfl

theorem applyChanges_append : applyChanges key value (log ++ log') state =
    applyChanges key value log' (applyChanges key value log state) :=
  List.foldl_append

/-- The last change of a key decides. -/
theorem applyChanges_apply : applyChanges key value log state k =
    ((lastRow key k log).map value).getD (state k) := by
  induction log generalizing state with
  | nil => rfl
  | cons change log ih =>
    rw [applyChanges_cons, ih, lastRow_cons]
    cases lastRow key k log with
    | some later => rfl
    | none =>
      rw [Option.none_or]
      by_cases hkey : key change = k
      · subst hkey
        rw [if_pos rfl, Function.update_self]
        rfl
      · rw [if_neg hkey, Function.update_of_ne (Ne.symm hkey)]

/-- Logs with the same last changes have the same effect. -/
theorem applyChanges_congr (h : ∀ k, lastRow key k log = lastRow key k log') :
    applyChanges key value log state = applyChanges key value log' state := by
  funext k
  rw [applyChanges_apply, applyChanges_apply, h]

theorem lastRow_eq_some_of_nodup {change : ι} (hnodup : (log.map key).Nodup) :
    lastRow key k log = some change ↔ change ∈ log ∧ key change = k := by
  constructor
  · exact mem_of_lastRow
  · rintro ⟨hmem, rfl⟩
    cases hlast : lastRow key (key change) log with
    | none => exact absurd (List.mem_map_of_mem hmem) (lastRow_eq_none.mp hlast)
    | some last =>
      obtain ⟨hlastMem, hlastKey⟩ := mem_of_lastRow hlast
      rw [List.inj_on_of_nodup_map hnodup hlastMem hmem hlastKey]

/-- A log with one change for each key may be applied in any order. -/
theorem applyChanges_perm (hnodup : (log.map key).Nodup) (hperm : log'.Perm log) :
    applyChanges key value log' state = applyChanges key value log state := by
  have hnodup' : (log'.map key).Nodup := (hperm.map key).nodup_iff.mpr hnodup
  apply applyChanges_congr
  intro k
  refine Option.ext fun change => ?_
  rw [lastRow_eq_some_of_nodup hnodup', lastRow_eq_some_of_nodup hnodup, hperm.mem_iff]

/-- A log in other words: what it says is said by its images. -/
theorem applyChanges_map {ι' : Type*} {key' : ι' → κ} {value' : ι' → Option ν} {f : ι → ι'}
    (hkey : ∀ change ∈ log, key' (f change) = key change)
    (hvalue : ∀ change ∈ log, value' (f change) = value change) :
    applyChanges key' value' (log.map f) state = applyChanges key value log state := by
  induction log generalizing state with
  | nil => rfl
  | cons change log ih =>
    rw [List.map_cons, applyChanges_cons, applyChanges_cons, hkey change List.mem_cons_self,
      hvalue change List.mem_cons_self]
    exact ih (fun c hc => hkey c (List.mem_cons_of_mem _ hc))
      (fun c hc => hvalue c (List.mem_cons_of_mem _ hc))

end Apply

/-! ## Compaction through an ordered map -/

section Compaction

variable [LinearOrder κ] {key : ι → κ} {log : List ι} {k : κ}

/-- `BTreeMap::into_values`: the values in the order of their keys. -/
def intoValues (map : AList fun _ : κ => ν) : List ν :=
  (orderBy (fun entry => entry.1) map.entries).map fun entry => entry.2

theorem mem_intoValues {map : AList fun _ : κ => ν} {v : ν} :
    v ∈ intoValues map ↔ ∃ k, map.lookup k = some v := by
  simp only [intoValues, List.mem_map, mem_orderBy]
  constructor
  · rintro ⟨⟨k, v⟩, hentry, rfl⟩
    exact ⟨k, AList.mem_lookup_iff.mpr hentry⟩
  · rintro ⟨k, hlookup⟩
    exact ⟨⟨k, v⟩, AList.mem_lookup_iff.mp hlookup, rfl⟩

/-- A map filled by inserting one change after the other. -/
def latestByKey (key : ι → κ) (log : List ι) : AList fun _ : κ => ι :=
  log.foldl (fun map change => map.insert (key change) change) ∅

theorem lookup_foldl_insert {map : AList fun _ : κ => ι} :
    (log.foldl (fun map change => map.insert (key change) change) map).lookup k =
      (lastRow key k log).or (map.lookup k) := by
  induction log generalizing map with
  | nil => rfl
  | cons change log ih =>
    rw [List.foldl_cons, ih, lastRow_cons, Option.or_assoc]
    by_cases hkey : key change = k
    · subst hkey
      rw [if_pos rfl, AList.lookup_insert, Option.some_or]
    · rw [if_neg hkey, AList.lookup_insert_ne (Ne.symm hkey), Option.none_or]

@[simp] theorem lookup_latestByKey : (latestByKey key log).lookup k = lastRow key k log := by
  rw [latestByKey, lookup_foldl_insert]
  exact Option.or_none

theorem mem_intoValues_latestByKey {change : ι} :
    change ∈ intoValues (latestByKey key log) ↔ lastRow key (key change) log = some change := by
  rw [mem_intoValues]
  constructor
  · rintro ⟨k, hlookup⟩
    rw [lookup_latestByKey] at hlookup
    rwa [(mem_of_lastRow hlookup).2]
  · intro hlast
    exact ⟨key change, lookup_latestByKey.trans hlast⟩

/-- One value for each key. -/
theorem nodup_intoValues_latestByKey :
    ((intoValues (latestByKey key log)).map key).Nodup := by
  have hentries : ((orderBy (fun entry : Sigma fun _ : κ => ι => entry.1)
      (latestByKey key log).entries).map Sigma.fst).Nodup :=
    ((perm_orderBy _ _).map Sigma.fst).nodup_iff.mpr (latestByKey key log).nodupKeys
  have hkeys : (intoValues (latestByKey key log)).map key =
      (orderBy (fun entry : Sigma fun _ : κ => ι => entry.1)
        (latestByKey key log).entries).map Sigma.fst := by
    rw [intoValues, List.map_map]
    refine List.map_congr_left fun entry hentry => ?_
    have hlookup : (latestByKey key log).lookup entry.1 = some entry.2 :=
      AList.mem_lookup_iff.mpr (mem_orderBy.mp hentry)
    rw [lookup_latestByKey] at hlookup
    exact (mem_of_lastRow hlookup).2
  rw [hkeys]
  exact hentries

theorem lastRow_intoValues_latestByKey :
    lastRow key k (intoValues (latestByKey key log)) = lastRow key k log := by
  refine Option.ext fun change => ?_
  rw [lastRow_eq_some_of_nodup nodup_intoValues_latestByKey, mem_intoValues_latestByKey]
  constructor
  · rintro ⟨hlast, rfl⟩
    exact hlast
  · intro hlast
    obtain rfl := (mem_of_lastRow hlast).2
    exact ⟨hlast, rfl⟩

/-- Compaction keeps the effect of a log, in whatever order the compacted log is applied. -/
theorem applyChanges_compacted {value : ι → Option ν} {log' : List ι} {state : κ → Option ν}
    (hperm : log'.Perm (intoValues (latestByKey key log))) :
    applyChanges key value log' state = applyChanges key value log state := by
  rw [applyChanges_perm nodup_intoValues_latestByKey hperm]
  exact applyChanges_congr fun k => lastRow_intoValues_latestByKey

end Compaction

end Bitloops
