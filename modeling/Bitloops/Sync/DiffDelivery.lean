import Bitloops.Sync.RunInvariant

/-!
# No committed change is missing from the diffs

A sync commits its changes in batches and hands its diff on at the end.  A change is *delivered*
if the generation of its sync shows it, or if a generation that forces a full reconcile is
recorded then or later.  `replay` is what a consumer builds that applies the diffs in order and
reads the table on a full reconcile.

A task that fails after a batch is committed loses the diff, and a later sync finds the files
unchanged.  `Recovered` is the exact condition under which nothing is missing.
-/

namespace Bitloops
namespace Sync

open CapabilityHost
open Daemon (SyncTaskMode)

/-! ## Delivery and replay -/

/-- The diff shows the change: the file, every artefact that is new or different, and every
artefact that is gone. -/
def EmittedGeneration.Shows (g : EmittedGeneration) (c : PathCommit) : Prop :=
  FileShown g.input.fileDiff c.path c.desired ∧
    (∀ r ∈ c.post,
      r ∈ c.pre ∨ r.changedArtefact ∈ g.input.artefactDiff.added ++ g.input.artefactDiff.changed) ∧
    ∀ r ∈ c.pre,
      (∃ r' ∈ c.post, r'.symbolId = r.symbolId) ∨
        r.removedArtefact ∈ g.input.artefactDiff.removed

instance (g : EmittedGeneration) : DecidablePred g.Shows := fun c =>
  inferInstanceAs (Decidable (FileShown g.input.fileDiff c.path c.desired ∧
    (∀ r ∈ c.post, _) ∧ ∀ r ∈ c.pre, (∃ r' ∈ c.post, _) ∨ _))

/-- Every change of the history is delivered. -/
def Delivered : List EndedRun → Prop
  | [] => True
  | e :: after =>
    (∀ c ∈ e.commits, (∃ g ∈ e.generation, g.Shows c) ∨
      ∃ later ∈ e :: after, ∃ g ∈ later.generation, g.requiresFullReconcile = true) ∧
    Delivered after

instance Delivered.decidable : DecidablePred Delivered
  | [] => isTrue trivial
  | e :: after =>
    have := Delivered.decidable after
    inferInstanceAs (Decidable ((∀ c ∈ e.commits, (∃ g ∈ e.generation, g.Shows c) ∨
      ∃ later ∈ e :: after, ∃ g ∈ later.generation, g.requiresFullReconcile = true) ∧ _))

/-- The artefacts of the repository, as the diffs describe them. -/
def artefactRecords (repoId : String) (t : ArtefactTable) : List DiffArtefactRecord :=
  (t.rows.filter fun row => row.repoId = repoId).map ArtefactRow.diffRecord

def diffRecord (a : ChangedArtefact) : DiffArtefactRecord where
  path := a.path
  artefactId := a.artefactId
  symbolId := a.symbolId
  canonicalKind := a.canonicalKind
  name := a.name

/-- The diff has an entry for the symbol of the record at its path. -/
def Names (diff : SyncArtefactDiff) (r : DiffArtefactRecord) : Prop :=
  (∃ a ∈ diff.added ++ diff.changed, a.path = r.path ∧ a.symbolId = r.symbolId) ∨
    ∃ a ∈ diff.removed, a.path = r.path ∧ a.symbolId = r.symbolId

instance (diff : SyncArtefactDiff) : DecidablePred (Names diff) := fun _ =>
  inferInstanceAs (Decidable ((∃ a ∈ diff.added ++ diff.changed, _) ∨ ∃ a ∈ diff.removed, _))

/-- Apply a diff: drop what it names and put what it adds or changes. -/
def applyDiff (diff : SyncArtefactDiff) (records : List DiffArtefactRecord) :
    List DiffArtefactRecord :=
  (records.filter fun r => ¬ Names diff r) ++ (diff.added ++ diff.changed).map diffRecord

/-- A consumer applies the diff of a generation, or reads the table on a full reconcile. -/
def replayRun (repoId : String) (records : List DiffArtefactRecord) (e : EndedRun) :
    List DiffArtefactRecord :=
  match e.generation with
  | none => records
  | some g =>
    if g.requiresFullReconcile then artefactRecords repoId e.artefacts
    else applyDiff g.input.artefactDiff records

/-- Replay all generations from the empty state. -/
def replay (repoId : String) (history : List EndedRun) : List DiffArtefactRecord :=
  history.foldl (replayRun repoId) []

/-! ## The condition -/

/-- The task reached `record_sync_generation`, which skips validations. -/
def EndedRun.recorded (e : EndedRun) : Bool :=
  match e.task with
  | some (mode, .enqueued) => mode ≠ .validate
  | _ => false

/-- The recorded sync was an automatic or a full one, or a repair. -/
def EndedRun.reconciles (e : EndedRun) : Bool :=
  match e.task with
  | some (.auto, .enqueued) | some (.full, .enqueued) | some (.repair, .enqueued) => true
  | _ => false

/-- An artefact that keeps its id keeps its kind and its name. -/
def PathCommit.KeepsDescriptions (c : PathCommit) : Prop :=
  ∀ r ∈ c.pre, ∀ r' ∈ c.post, r.symbolId = r'.symbolId → r.artefactId = r'.artefactId → r = r'

instance : DecidablePred PathCommit.KeepsDescriptions := fun c =>
  inferInstanceAs (Decidable (∀ r ∈ c.pre, ∀ r' ∈ c.post, _))

/-- Each change that was not recorded, or that rewrote an artefact under its id, is followed by a
recorded sync that was not a path sync. -/
def Recovered : List EndedRun → Prop
  | [] => True
  | e :: after =>
    (∀ c ∈ e.commits, (e.recorded = true ∧ c.KeepsDescriptions) ∨
      ∃ later ∈ e :: after, later.reconciles = true) ∧
    Recovered after

instance Recovered.decidable : DecidablePred Recovered
  | [] => isTrue trivial
  | e :: after =>
    have := Recovered.decidable after
    inferInstanceAs (Decidable ((∀ c ∈ e.commits, (e.recorded = true ∧ c.KeepsDescriptions) ∨
      ∃ later ∈ e :: after, later.reconciles = true) ∧ _))

/-! ## Sound histories -/

/-- What is known of a run that ended, and that started with the artefacts `base`. -/
structure EndedRun.Sound (repoId : String) (base : ArtefactTable) (e : EndedRun) : Prop where
  nodup : (e.commits.map (·.path)).Nodup
  pre : ∀ c ∈ e.commits, ∀ r, r ∈ c.pre ↔ r ∈ queryCurrentArtefactsForPath repoId c.path base
  post : ∀ c ∈ e.commits, ∀ r,
    r ∈ c.post ↔ r ∈ queryCurrentArtefactsForPath repoId c.path e.artefacts
  symbols : ∀ c ∈ e.commits, (c.pre.map (·.symbolId)).Nodup ∧ (c.post.map (·.symbolId)).Nodup
  others : ∀ row : ArtefactRow, ¬ (row.repoId = repoId ∧ row.path ∈ e.commits.map (·.path)) →
    (row ∈ e.artefacts.rows ↔ row ∈ base.rows)
  recorded : e.generation.isSome = e.recorded
  reconciles : ∀ g, e.generation = some g → g.requiresFullReconcile = e.reconciles
  fileShown : ∀ g, e.generation = some g → ∀ c ∈ e.commits,
    FileShown g.input.fileDiff c.path c.desired
  added : ∀ g, e.generation = some g → ∀ a, a ∈ g.input.artefactDiff.added ↔
    ∃ c ∈ e.commits, ∃ r ∈ c.post,
      (∀ r' ∈ c.pre, r'.symbolId ≠ r.symbolId) ∧ r.changedArtefact = a
  changed : ∀ g, e.generation = some g → ∀ a, a ∈ g.input.artefactDiff.changed ↔
    ∃ c ∈ e.commits, ∃ r ∈ c.post,
      (∃ r' ∈ c.pre, r'.symbolId = r.symbolId ∧ r'.artefactId ≠ r.artefactId) ∧
        r.changedArtefact = a
  removed : ∀ g, e.generation = some g → ∀ a, a ∈ g.input.artefactDiff.removed ↔
    ∃ c ∈ e.commits, ∃ r ∈ c.pre,
      (∀ r' ∈ c.post, r'.symbolId ≠ r.symbolId) ∧ r.removedArtefact = a

/-- The artefacts that the history leaves. -/
def finalArtefacts : ArtefactTable → List EndedRun → ArtefactTable
  | base, [] => base
  | _, e :: after => finalArtefacts e.artefacts after

/-- The runs of the history follow each other. -/
def Linked (repoId : String) : ArtefactTable → List EndedRun → Prop
  | _, [] => True
  | base, e :: after => e.Sound repoId base ∧ Linked repoId e.artefacts after

section Histories

variable {repoId : String} {base : ArtefactTable} {history : List EndedRun} {e : EndedRun}

theorem finalArtefacts_append_singleton :
    finalArtefacts base (history ++ [e]) = e.artefacts := by
  induction history generalizing base with
  | nil => rfl
  | cons head history ih => exact ih

theorem Linked.append_singleton (h : Linked repoId base history)
    (he : e.Sound repoId (finalArtefacts base history)) : Linked repoId base (history ++ [e]) := by
  induction history generalizing base with
  | nil => exact ⟨he, trivial⟩
  | cons head history ih => exact ⟨h.1, ih h.2 he⟩

theorem mem_artefactRecords {t : ArtefactTable} {r : DiffArtefactRecord} :
    r ∈ artefactRecords repoId t ↔ r ∈ queryCurrentArtefactsForPath repoId r.path t := by
  rw [mem_queryCurrentArtefactsForPath]
  simp only [artefactRecords, List.mem_map, List.mem_filter, decide_eq_true_eq]
  constructor
  · rintro ⟨row, ⟨hrow, hrepo⟩, rfl⟩
    exact ⟨row, hrow, hrepo, rfl, rfl⟩
  · rintro ⟨row, hrow, hrepo, -, hr⟩
    exact ⟨row, ⟨hrow, hrepo⟩, hr⟩

theorem path_of_mem_query {t : ArtefactTable} {path : String} {r : DiffArtefactRecord}
    (h : r ∈ queryCurrentArtefactsForPath repoId path t) : r.path = path := by
  obtain ⟨row, -, -, hpath, rfl⟩ := mem_queryCurrentArtefactsForPath.mp h
  exact hpath

end Histories

/-! ## The diff of a sound run -/

section SoundRun

variable {repoId : String} {base : ArtefactTable} {e : EndedRun} {g : EmittedGeneration}
  {c : PathCommit} {r r' : DiffArtefactRecord}

theorem EndedRun.Sound.path_of_mem_pre (h : e.Sound repoId base) (hc : c ∈ e.commits)
    (hr : r ∈ c.pre) : r.path = c.path :=
  path_of_mem_query ((h.pre c hc r).mp hr)

theorem EndedRun.Sound.path_of_mem_post (h : e.Sound repoId base) (hc : c ∈ e.commits)
    (hr : r ∈ c.post) : r.path = c.path :=
  path_of_mem_query ((h.post c hc r).mp hr)

theorem EndedRun.Sound.eq_of_path_eq {c' : PathCommit} (h : e.Sound repoId base)
    (hc : c ∈ e.commits) (hc' : c' ∈ e.commits) (hpath : c.path = c'.path) : c = c' :=
  List.inj_on_of_nodup_map h.nodup hc hc' hpath

theorem EndedRun.Sound.pre_symbol (h : e.Sound repoId base) (hc : c ∈ e.commits) (hr : r ∈ c.pre)
    (hr' : r' ∈ c.pre) (hsymbol : r.symbolId = r'.symbolId) : r = r' :=
  List.inj_on_of_nodup_map (h.symbols c hc).1 hr hr' hsymbol

theorem EndedRun.Sound.post_symbol (h : e.Sound repoId base) (hc : c ∈ e.commits)
    (hr : r ∈ c.post) (hr' : r' ∈ c.post) (hsymbol : r.symbolId = r'.symbolId) : r = r' :=
  List.inj_on_of_nodup_map (h.symbols c hc).2 hr hr' hsymbol

/-- What the diff lists for a path is a committed artefact that is new or has another id. -/
theorem EndedRun.Sound.mem_listed (h : e.Sound repoId base) (hg : e.generation = some g)
    {a : ChangedArtefact} (hc : c ∈ e.commits) (hpath : a.path = c.path) :
    a ∈ g.input.artefactDiff.added ++ g.input.artefactDiff.changed ↔
      ∃ r ∈ c.post, (∀ r' ∈ c.pre, r'.symbolId = r.symbolId → r'.artefactId ≠ r.artefactId) ∧
        r.changedArtefact = a := by
  have hsame : ∀ c' ∈ e.commits, ∀ r ∈ c'.post, r.changedArtefact = a → c' = c := by
    rintro c' hc' r hr rfl
    exact h.eq_of_path_eq hc' hc ((h.path_of_mem_post hc' hr).symm.trans hpath)
  rw [List.mem_append, h.added g hg, h.changed g hg]
  constructor
  · rintro (⟨c', hc', r, hr, hnew, ha⟩ | ⟨c', hc', r, hr, ⟨r', hr', hsymbol, hid⟩, ha⟩)
    · obtain rfl := hsame c' hc' r hr ha
      exact ⟨r, hr, fun r' hr' hsymbol => absurd hsymbol (hnew r' hr'), ha⟩
    · obtain rfl := hsame c' hc' r hr ha
      refine ⟨r, hr, fun x hx hxsymbol => ?_, ha⟩
      rw [h.pre_symbol hc hx hr' (hxsymbol.trans hsymbol.symm)]
      exact hid
  · rintro ⟨r, hr, hdifferent, ha⟩
    by_cases hold : ∃ r' ∈ c.pre, r'.symbolId = r.symbolId
    · obtain ⟨r', hr', hsymbol⟩ := hold
      exact .inr ⟨c, hc, r, hr, ⟨r', hr', hsymbol, hdifferent r' hr' hsymbol⟩, ha⟩
    · exact .inl ⟨c, hc, r, hr, fun r' hr' hsymbol => hold ⟨r', hr', hsymbol⟩, ha⟩

theorem EndedRun.Sound.mem_removed (h : e.Sound repoId base) (hg : e.generation = some g)
    {a : RemovedArtefact} (hc : c ∈ e.commits) (hpath : a.path = c.path) :
    a ∈ g.input.artefactDiff.removed ↔
      ∃ r ∈ c.pre, (∀ r' ∈ c.post, r'.symbolId ≠ r.symbolId) ∧ r.removedArtefact = a := by
  rw [h.removed g hg]
  constructor
  · rintro ⟨c', hc', r, hr, hgone, rfl⟩
    obtain rfl := h.eq_of_path_eq hc' hc ((h.path_of_mem_pre hc' hr).symm.trans hpath)
    exact ⟨r, hr, hgone, rfl⟩
  · exact fun hr => ⟨c, hc, hr⟩

/-- **The diff of a recorded run** shows a change unless the change rewrote an artefact under
its id. -/
theorem EndedRun.Sound.shows_iff (h : e.Sound repoId base) (hg : e.generation = some g)
    (hc : c ∈ e.commits) : g.Shows c ↔ c.KeepsDescriptions := by
  constructor
  · rintro ⟨-, hpost, -⟩ r hr r' hr' hsymbol hid
    rcases hpost r' hr' with hkept | hlisted
    · exact h.pre_symbol hc hr hkept hsymbol
    · obtain ⟨x, hx, hdifferent, hsame⟩ :=
        (h.mem_listed hg hc (h.path_of_mem_post hc hr')).mp hlisted
      rw [DiffArtefactRecord.changedArtefact_injective hsame] at hdifferent
      exact absurd hid (hdifferent r hr hsymbol)
  · intro hkeeps
    refine ⟨h.fileShown g hg c hc, fun r hr => ?_, fun r hr => ?_⟩
    · by_cases hsame : ∃ r' ∈ c.pre, r'.symbolId = r.symbolId ∧ r'.artefactId = r.artefactId
      · obtain ⟨r', hr', hsymbol, hid⟩ := hsame
        rw [← hkeeps r' hr' r hr hsymbol hid]
        exact .inl hr'
      · refine .inr ((h.mem_listed hg hc (h.path_of_mem_post hc hr)).mpr ⟨r, hr, ?_, rfl⟩)
        exact fun r' hr' hsymbol hid => hsame ⟨r', hr', hsymbol, hid⟩
    · by_cases hthere : ∃ r' ∈ c.post, r'.symbolId = r.symbolId
      · exact .inl hthere
      · refine .inr ((h.mem_removed hg hc (h.path_of_mem_pre hc hr)).mpr ⟨r, hr, ?_, rfl⟩)
        exact fun r' hr' hsymbol => hthere ⟨r', hr', hsymbol⟩

/-- The diff says nothing about a path that was not committed. -/
theorem EndedRun.Sound.silent (h : e.Sound repoId base) (hg : e.generation = some g)
    (hpath : r.path ∉ e.commits.map (·.path)) :
    ¬ Names g.input.artefactDiff r ∧
      r.changedArtefact ∉ g.input.artefactDiff.added ++ g.input.artefactDiff.changed := by
  have hlisted : ∀ a ∈ g.input.artefactDiff.added ++ g.input.artefactDiff.changed,
      a.path ∈ e.commits.map (·.path) := by
    intro a ha
    rw [List.mem_append, h.added g hg, h.changed g hg] at ha
    rcases ha with ⟨c, hc, r, hr, -, rfl⟩ | ⟨c, hc, r, hr, -, rfl⟩
    all_goals
      have hrpath := h.path_of_mem_post hc hr
      exact List.mem_map.mpr ⟨c, hc, hrpath.symm⟩
  refine ⟨?_, fun hmem => hpath (hlisted _ hmem)⟩
  rintro (⟨a, ha, hapath, -⟩ | ⟨a, ha, hapath, -⟩)
  · exact hpath (hapath ▸ hlisted a ha)
  · obtain ⟨c, hc, x, hx, -, rfl⟩ := (h.removed g hg a).mp ha
    have hxpath := h.path_of_mem_pre hc hx
    exact hpath (hapath ▸ List.mem_map.mpr ⟨c, hc, hxpath.symm⟩)

theorem mem_applyDiff {diff : SyncArtefactDiff} {records : List DiffArtefactRecord} :
    r ∈ applyDiff diff records ↔
      (r ∈ records ∧ ¬ Names diff r) ∨ r.changedArtefact ∈ diff.added ++ diff.changed := by
  have hinverse : ∀ a : ChangedArtefact, (diffRecord a).changedArtefact = a := fun _ => rfl
  rw [applyDiff, List.mem_append, List.mem_filter, decide_eq_true_eq, List.mem_map]
  refine or_congr_right ⟨?_, fun hmem => ⟨r.changedArtefact, hmem, rfl⟩⟩
  rintro ⟨a, ha, rfl⟩
  rw [hinverse]
  exact ha

/-- **Replaying the diff of a run** leads from the artefacts before it to those after it. -/
theorem EndedRun.Sound.applyDiff (h : e.Sound repoId base) (hg : e.generation = some g)
    (hkeeps : ∀ c ∈ e.commits, c.KeepsDescriptions) {records : List DiffArtefactRecord}
    (hrecords : ∀ r, r ∈ records ↔ r ∈ artefactRecords repoId base) (r : DiffArtefactRecord) :
    r ∈ applyDiff g.input.artefactDiff records ↔ r ∈ artefactRecords repoId e.artefacts := by
  rw [mem_applyDiff, hrecords, mem_artefactRecords, mem_artefactRecords]
  by_cases hcommitted : r.path ∈ e.commits.map (·.path)
  · obtain ⟨c, hc, hpath⟩ := List.mem_map.mp hcommitted
    rw [← hpath, ← h.pre c hc, ← h.post c hc]
    obtain ⟨-, hpost, hpre⟩ := (h.shows_iff hg hc).mpr (hkeeps c hc)
    constructor
    · rintro (⟨hr, hunnamed⟩ | hlisted)
      · by_cases hthere : ∃ r' ∈ c.post, r'.symbolId = r.symbolId
        · -- the entry of the symbol would name the record
          obtain ⟨r', hr', hsymbol⟩ := hthere
          rcases hpost r' hr' with hkept | hlisted
          · rw [h.pre_symbol hc hr hkept hsymbol.symm]
            exact hr'
          · refine absurd (.inl ⟨r'.changedArtefact, hlisted, ?_, hsymbol⟩) hunnamed
            exact (h.path_of_mem_post hc hr').trans hpath
        · refine absurd (.inr ⟨r.removedArtefact, ?_, rfl, rfl⟩) hunnamed
          exact (hpre r hr).resolve_left hthere
      · obtain ⟨x, hx, -, hsame⟩ := (h.mem_listed hg hc hpath.symm).mp hlisted
        rw [← DiffArtefactRecord.changedArtefact_injective hsame]
        exact hx
    · intro hr
      refine (hpost r hr).imp_left fun hkept => ⟨hkept, ?_⟩
      rintro (⟨a, ha, hapath, hsymbol⟩ | ⟨a, ha, hapath, hsymbol⟩)
      · obtain ⟨x, hx, hdifferent, rfl⟩ :=
          (h.mem_listed hg hc (hapath.trans hpath.symm)).mp ha
        have hxr : x = r := h.post_symbol hc hx hr hsymbol
        subst hxr
        exact hdifferent x hkept rfl rfl
      · obtain ⟨x, hx, hgone, rfl⟩ := (h.mem_removed hg hc (hapath.trans hpath.symm)).mp ha
        exact hgone r hr hsymbol.symm
  · obtain ⟨hunnamed, hunlisted⟩ := h.silent hg hcommitted
    rw [or_iff_left hunlisted, and_iff_left hunnamed]
    refine mem_query_congr (fun row _ hpath => ?_) r
    exact (h.others row fun hmem => hcommitted (hpath ▸ hmem.2)).symm

end SoundRun

/-! ## The history -/

section History

variable {repoId : String} {base : ArtefactTable} {history : List EndedRun}

theorem reconciles_iff {e : EndedRun} (h : e.Sound repoId base) :
    (∃ g ∈ e.generation, g.requiresFullReconcile = true) ↔ e.reconciles = true := by
  constructor
  · rintro ⟨g, hg, hfull⟩
    rw [← h.reconciles g hg]
    exact hfull
  · intro hreconciles
    have hrecorded : e.recorded = true := by
      unfold EndedRun.reconciles at hreconciles
      unfold EndedRun.recorded
      split at hreconciles <;> simp_all
    obtain ⟨g, hg⟩ := Option.isSome_iff_exists.mp (h.recorded.trans hrecorded)
    exact ⟨g, hg, (h.reconciles g hg).trans hreconciles⟩

theorem Linked.reconciles_iff (h : Linked repoId base history) :
    (∃ later ∈ history, ∃ g ∈ later.generation, g.requiresFullReconcile = true) ↔
      ∃ later ∈ history, later.reconciles = true := by
  induction history generalizing base with
  | nil => simp
  | cons e after ih =>
    rw [List.exists_mem_cons_iff, List.exists_mem_cons_iff, ih h.2, Sync.reconciles_iff h.1]

/-- **Every change is delivered exactly when the history is recovered.** -/
theorem Linked.delivered_iff (h : Linked repoId base history) :
    Delivered history ↔ Recovered history := by
  induction history generalizing base with
  | nil => exact Iff.rfl
  | cons e after ih =>
    rw [Delivered, Recovered, ih h.2, h.reconciles_iff]
    refine and_congr_left fun _ => forall₂_congr fun c hc => or_congr_left ?_
    constructor
    · rintro ⟨g, hg, hshows⟩
      refine ⟨?_, (h.1.shows_iff hg hc).mp hshows⟩
      rw [← h.1.recorded, Option.mem_def.mp hg, Option.isSome_some]
    · rintro ⟨hrecorded, hkeeps⟩
      obtain ⟨g, hg⟩ := Option.isSome_iff_exists.mp (h.1.recorded.trans hrecorded)
      exact ⟨g, hg, (h.1.shows_iff hg hc).mpr hkeeps⟩

/-- A recovered history is replayed, also from a wrong state if a reconcile is to come. -/
theorem Linked.replay (h : Linked repoId base history) (hrecovered : Recovered history)
    {records : List DiffArtefactRecord}
    (hstart : (∀ r, r ∈ records ↔ r ∈ artefactRecords repoId base) ∨
      ∃ e ∈ history, e.reconciles = true) (r : DiffArtefactRecord) :
    r ∈ history.foldl (replayRun repoId) records ↔
      r ∈ artefactRecords repoId (finalArtefacts base history) := by
  induction history generalizing base records with
  | nil =>
    rcases hstart with hstart | ⟨e, he, -⟩
    · exact hstart r
    · exact absurd he List.not_mem_nil
  | cons e after ih =>
    refine ih h.2 hrecovered.2 ?_
    by_cases hlater : ∃ later ∈ after, later.reconciles = true
    · exact .inr hlater
    · refine .inl ?_
      by_cases hfull : e.reconciles = true
      · -- the consumer reads the table
        obtain ⟨g, hg, hrequires⟩ := (Sync.reconciles_iff h.1).mpr hfull
        intro r
        rw [replayRun, Option.mem_def.mp hg]
        simp only [hrequires, if_true]
      · have hnone : ¬ ∃ later ∈ e :: after, later.reconciles = true := by
          rw [List.exists_mem_cons_iff]
          exact fun hor => hor.elim hfull hlater
        have hcommits := fun c hc => (hrecovered.1 c hc).resolve_right hnone
        have hbase := hstart.resolve_right hnone
        cases hgeneration : e.generation with
        | none =>
          -- nothing was recorded, and nothing committed
          have hunrecorded : e.recorded = false := by
            rw [← h.1.recorded, hgeneration, Option.isSome_none]
          have hempty : e.commits = [] := by
            cases hlist : e.commits with
            | nil => rfl
            | cons c rest =>
              obtain ⟨hrecorded, -⟩ := hcommits c (hlist ▸ List.mem_cons_self)
              rw [hunrecorded] at hrecorded
              cases hrecorded
          intro r
          rw [replayRun, hgeneration]
          dsimp only
          rw [hbase r, mem_artefactRecords, mem_artefactRecords]
          refine mem_query_congr (fun row _ _ => (h.1.others row ?_).symm) r
          rw [hempty]
          exact fun hmem => List.not_mem_nil hmem.2
        | some g =>
          intro r
          have hdelta : g.requiresFullReconcile = false := by
            rw [h.1.reconciles g hgeneration]
            exact eq_false_of_ne_true hfull
          rw [replayRun, hgeneration]
          simp only [hdelta, Bool.false_eq_true, if_false]
          exact h.1.applyDiff hgeneration (fun c hc => (hcommits c hc).2) hbase r

end History

/-! ## Runs of the repository -/

/-- The history is sound, and the sync in progress started where it ends. -/
structure WorldInvariant (repoId : String) (w : World) : Prop where
  linked : Linked repoId .empty w.history
  idle : w.current = none → w.store.artefacts = finalArtefacts .empty w.history
  running : ∀ input run, w.current = some (input, run) →
    ∃ base : Store, base.artefacts = finalArtefacts .empty w.history ∧
      RunInvariant repoId input base w.store run

section Worlds

variable {repoId : String} {w w' : World} {action : Action}

/-- The records collected for a path are those of its commit. -/
theorem filter_flatMap_of_mem {commits : List PathCommit} {f : PathCommit → List DiffArtefactRecord}
    (hnodup : (commits.map (·.path)).Nodup)
    (hpaths : ∀ c ∈ commits, ∀ r ∈ f c, r.path = c.path) {c : PathCommit} (hc : c ∈ commits) :
    (commits.flatMap f).filter (·.path = c.path) = f c := by
  induction commits with
  | nil => exact absurd hc List.not_mem_nil
  | cons head commits ih =>
    rw [List.map_cons, List.nodup_cons] at hnodup
    rw [List.flatMap_cons, List.filter_append]
    have hkept : ∀ c' ∈ head :: commits, c'.path = c.path →
        (f c').filter (·.path = c.path) = f c' := fun c' hc' hpath =>
      List.filter_eq_self.mpr fun r hr => decide_eq_true ((hpaths c' hc' r hr).trans hpath)
    have hdropped : ∀ c' ∈ head :: commits, c'.path ≠ c.path →
        (f c').filter (·.path = c.path) = [] := fun c' hc' hpath =>
      List.filter_eq_nil_iff.mpr fun r hr => by
        rw [decide_eq_true_eq, hpaths c' hc' r hr]
        exact hpath
    rcases List.mem_cons.mp hc with rfl | hc
    · have hrest : (commits.flatMap f).filter (·.path = c.path) = [] := by
        refine List.filter_eq_nil_iff.mpr fun r hr => ?_
        obtain ⟨c', hc', hr⟩ := List.mem_flatMap.mp hr
        rw [decide_eq_true_eq, hpaths c' (List.mem_cons_of_mem _ hc') r hr]
        exact fun heq => hnodup.1 (heq ▸ List.mem_map_of_mem hc')
      rw [hkept c List.mem_cons_self rfl, hrest, List.append_nil]
    · have hne : head.path ≠ c.path := fun heq => hnodup.1 (heq ▸ List.mem_map_of_mem hc)
      rw [hdropped head List.mem_cons_self hne, List.nil_append]
      exact ih hnodup.2 (fun c' hc' => hpaths c' (List.mem_cons_of_mem _ hc')) hc

theorem filter_flatMap_of_not_mem {commits : List PathCommit}
    {f : PathCommit → List DiffArtefactRecord}
    (hpaths : ∀ c ∈ commits, ∀ r ∈ f c, r.path = c.path) {path : String}
    (hpath : path ∉ commits.map (·.path)) : (commits.flatMap f).filter (·.path = path) = [] := by
  refine List.filter_eq_nil_iff.mpr fun r hr => ?_
  obtain ⟨c, hc, hr⟩ := List.mem_flatMap.mp hr
  rw [decide_eq_true_eq, hpaths c hc r hr]
  exact fun heq => hpath (heq ▸ List.mem_map_of_mem hc)

/-- What the collector holds for a path, read off the commits. -/
theorem exists_artefactsAt_iff {map : ArtefactsByPath} {commits : List PathCommit}
    {f : PathCommit → List DiffArtefactRecord}
    (hpaths : ∀ c ∈ commits, ∀ r ∈ f c, r.path = c.path)
    (hmap : ∀ path, artefactsAt map path = (commits.flatMap f).filter (·.path = path))
    {path : String} {r : DiffArtefactRecord} :
    r ∈ artefactsAt map path ↔ ∃ c ∈ commits, c.path = path ∧ r ∈ f c := by
  rw [hmap, List.mem_filter, List.mem_flatMap, decide_eq_true_eq]
  constructor
  · rintro ⟨⟨c, hc, hr⟩, rfl⟩
    exact ⟨c, hc, (hpaths c hc r hr).symm, hr⟩
  · rintro ⟨c, hc, rfl, hr⟩
    exact ⟨⟨c, hc, hr⟩, hpaths c hc r hr⟩

/-- **A sync that ends leaves a sound entry.** -/
theorem RunInvariant.sound {input : SyncInput} {base s : Store} {run : SyncRun} {taskEnd : TaskEnd}
    (h : RunInvariant repoId input base s run) :
    EndedRun.Sound repoId base.artefacts
      { task := some (input.mode, taskEnd)
        commits := run.commits
        generation := emittedGeneration input run.diffCollector taskEnd
        artefacts := s.artefacts } := by
  have hnodup : (run.commits.map (·.path)).Nodup :=
    (List.nodup_append.mp (nodup_commits_pendingBatch h.nodup)).1
  have hprePaths : ∀ c ∈ run.commits, ∀ r ∈ c.pre, r.path = c.path := fun c hc r hr =>
    path_of_mem_query ((h.tracked.pre c hc r).mp hr)
  have hpostPaths : ∀ c ∈ run.commits, ∀ r ∈ c.post, r.path = c.path := fun c hc r hr =>
    path_of_mem_query ((h.tracked.post c hc r).mp hr)
  have hpreAt : ∀ c ∈ run.commits, artefactsAt run.diffCollector.preArtefacts c.path = c.pre :=
    fun c hc => (h.collectedPre c.path).trans (filter_flatMap_of_mem hnodup hprePaths hc)
  have hpostAt : ∀ c ∈ run.commits, artefactsAt run.diffCollector.postArtefacts c.path = c.post :=
    fun c hc => (h.collectedPost c.path).trans (filter_flatMap_of_mem hnodup hpostPaths hc)
  have hpreDiffer : SymbolsDiffer run.diffCollector.preArtefacts := by
    intro path
    by_cases hpath : path ∈ run.commits.map (·.path)
    · obtain ⟨c, hc, rfl⟩ := List.mem_map.mp hpath
      rw [hpreAt c hc]
      exact (h.tracked.symbols c hc).1
    · rw [h.collectedPre, filter_flatMap_of_not_mem hprePaths hpath]
      exact List.nodup_nil
  have hpostDiffer : SymbolsDiffer run.diffCollector.postArtefacts := by
    intro path
    by_cases hpath : path ∈ run.commits.map (·.path)
    · obtain ⟨c, hc, rfl⟩ := List.mem_map.mp hpath
      rw [hpostAt c hc]
      exact (h.tracked.symbols c hc).2
    · rw [h.collectedPost, filter_flatMap_of_not_mem hpostPaths hpath]
      exact List.nodup_nil
  have hemitted : ∀ g, emittedGeneration input run.diffCollector taskEnd = some g →
      g.summary = syncSummary input ∧ g.input.fileDiff = run.diffCollector.intoDiffs.1 ∧
        g.input.artefactDiff = run.diffCollector.intoDiffs.2 := by
    intro g hg
    unfold emittedGeneration at hg
    split at hg
    · split_ifs at hg
      cases hg
      exact ⟨rfl, rfl, rfl⟩
    · cases hg
  refine ⟨hnodup, h.tracked.pre, h.tracked.post, h.tracked.symbols, h.tracked.otherArtefacts,
    ?_, ?_, ?_, ?_, ?_, ?_⟩
  · cases taskEnd <;> cases hmode : input.mode <;>
      simp [emittedGeneration, EndedRun.recorded, syncSummary, syncReason, hmode,
        CapabilityEvents.SyncSummary.skipped]
  · intro g hg
    obtain ⟨hsummary, -, -⟩ := hemitted g hg
    rw [EmittedGeneration.requiresFullReconcile, hsummary]
    cases taskEnd <;> cases hmode : input.mode <;>
      simp_all [emittedGeneration, EndedRun.reconciles, syncSummary, syncReason,
        CapabilityEvents.SyncSummary.skipped]
  · intro g hg c hc
    obtain ⟨-, hfiles, -⟩ := hemitted g hg
    have hplanned : (c.path, c.desired) ∈ run.planned := by
      simp only [SyncRun.planned]
      exact List.mem_append_right _ (List.mem_map.mpr ⟨c, hc, rfl⟩)
    have hshown := h.shown c.path c.desired hplanned
    rw [hfiles]
    cases hdesired : c.desired <;> rw [hdesired] at hshown <;>
      simpa [FileShown, SyncDiffCollector.intoDiffs, sortFileDiff] using hshown
  · intro g hg a
    rw [(hemitted g hg).2.2, mem_added_intoDiffs hpreDiffer hpostDiffer]
    constructor
    · rintro ⟨path, r, hr, hnew, ha⟩
      obtain ⟨c, hc, rfl, hrc⟩ := (exists_artefactsAt_iff hpostPaths h.collectedPost).mp hr
      rw [hpreAt c hc] at hnew
      exact ⟨c, hc, r, hrc, hnew, ha⟩
    · rintro ⟨c, hc, r, hr, hnew, ha⟩
      exact ⟨c.path, r, (hpostAt c hc).symm ▸ hr, (hpreAt c hc).symm ▸ hnew, ha⟩
  · intro g hg a
    rw [(hemitted g hg).2.2, mem_changed_intoDiffs hpreDiffer hpostDiffer]
    constructor
    · rintro ⟨path, r, hr, hold, ha⟩
      obtain ⟨c, hc, rfl, hrc⟩ := (exists_artefactsAt_iff hpostPaths h.collectedPost).mp hr
      rw [hpreAt c hc] at hold
      exact ⟨c, hc, r, hrc, hold, ha⟩
    · rintro ⟨c, hc, r, hr, hold, ha⟩
      exact ⟨c.path, r, (hpostAt c hc).symm ▸ hr, (hpreAt c hc).symm ▸ hold, ha⟩
  · intro g hg a
    rw [(hemitted g hg).2.2, mem_removed_intoDiffs hpreDiffer hpostDiffer]
    constructor
    · rintro ⟨path, r, hr, hgone, ha⟩
      obtain ⟨c, hc, rfl, hrc⟩ := (exists_artefactsAt_iff hprePaths h.collectedPre).mp hr
      rw [hpostAt c hc] at hgone
      exact ⟨c, hc, r, hrc, hgone, ha⟩
    · rintro ⟨c, hc, r, hr, hgone, ha⟩
      exact ⟨c.path, r, (hpreAt c hc).symm ▸ hr, (hpostAt c hc).symm ▸ hgone, ha⟩

/-- An input, for the facts about a purge that do not depend on it. -/
def SyncInput.empty : SyncInput where
  mode := .auto
  taskId := none
  initSessionId := none
  ignoredPaths := []
  desired := .empty
  parserVersion := ""
  extractorVersion := ""
  activeBranch := none
  headCommitSha := none

theorem sound_purge (excludedPaths : List String) (s : Store) :
    EndedRun.Sound repoId s.artefacts
      { task := none
        commits := purgeCommits repoId excludedPaths s
        generation := none
        artefacts := (removePathsTx repoId excludedPaths s).artefacts } := by
  have htracked : Tracked repoId SyncInput.empty s (removePathsTx repoId excludedPaths s)
      (purgeCommits repoId excludedPaths s) := by
    refine Tracked.removePathsTx ?_ ?_ ?_
    · exact fun path hpath => mem_sortDedup.mp (List.mem_filter.mp hpath).1
    · intro row hrow hrepo hpath
      exact List.mem_filter.mpr ⟨mem_sortDedup.mpr hpath,
        decide_eq_true (.inl ⟨row, hrow, hrepo, rfl⟩)⟩
    · intro row hrow hrepo hpath
      exact List.mem_filter.mpr ⟨mem_sortDedup.mpr hpath,
        decide_eq_true (.inr ⟨row, hrow, hrepo, rfl⟩)⟩
  refine ⟨?_, htracked.pre, htracked.post, htracked.symbols, htracked.otherArtefacts, rfl,
    fun g hg => (nomatch hg), fun g hg => (nomatch hg), fun g hg => (nomatch hg),
    fun g hg => (nomatch hg), fun g hg => (nomatch hg)⟩
  have hpaths : (purgeCommits repoId excludedPaths s).map (·.path) =
      (sortDedup excludedPaths).filter fun path =>
        (∃ row ∈ s.files.rows, row.repoId = repoId ∧ row.path = path) ∨
          ∃ row ∈ s.artefacts.rows, row.repoId = repoId ∧ row.path = path := by
    rw [purgeCommits, List.map_map]
    exact List.map_id _
  rw [hpaths]
  exact (List.nodup_dedup _).filter _

theorem worldInvariant_empty : WorldInvariant repoId World.empty :=
  ⟨trivial, fun _ => rfl, fun _ _ h => (nomatch h)⟩

/-- **Every operation keeps the history sound.** -/
theorem WorldInvariant.step (h : WorldInvariant repoId w) (hstep : step repoId w action = some w') :
    WorldInvariant repoId w' := by
  cases action with
  | start input =>
    rw [Sync.step] at hstep
    split_ifs at hstep with hcurrent
    cases hstep
    refine ⟨h.linked, fun hnone => (nomatch hnone), fun input' run hrun => ?_⟩
    cases hrun
    exact ⟨w.store, h.idle (by simpa using hcurrent), runInvariant_startSync⟩
  | run action =>
    simp only [Sync.step, Option.bind_eq_bind, Option.bind_eq_some_iff, Option.pure_def,
      Option.some.injEq, Prod.exists] at hstep
    obtain ⟨input, run, hcurrent, store, run', hrun, rfl⟩ := hstep
    obtain ⟨base, hbase, hinv⟩ := h.running input run hcurrent
    refine ⟨h.linked, fun hnone => (nomatch hnone), fun input' next hnext => ?_⟩
    cases hnext
    exact ⟨base, hbase, hinv.runStep hrun⟩
  | finish taskEnd =>
    simp only [Sync.step, Option.bind_eq_bind, Option.bind_eq_some_iff, Prod.exists] at hstep
    obtain ⟨input, run, hcurrent, hstep⟩ := hstep
    split_ifs at hstep
    cases hstep
    obtain ⟨base, hbase, hinv⟩ := h.running input run hcurrent
    refine ⟨h.linked.append_singleton (hbase ▸ hinv.sound), fun _ => ?_,
      fun _ _ hnone => (nomatch hnone)⟩
    rw [finalArtefacts_append_singleton]
  | purge excludedPaths =>
    rw [Sync.step] at hstep
    split_ifs at hstep with hcurrent
    cases hstep
    have hidle : w.current = none := by simpa using hcurrent
    refine ⟨h.linked.append_singleton (h.idle hidle ▸ sound_purge excludedPaths w.store),
      fun _ => ?_, fun input run hrun => ?_⟩
    · rw [finalArtefacts_append_singleton]
    · dsimp only at hrun
      rw [hidle] at hrun
      cases hrun

end Worlds

/-- **No change is missing exactly when the history is recovered.**  After any run of the
repository that has no sync in progress, every committed change is delivered and the replay
yields the stored artefacts if and only if the history is recovered. -/
theorem delivered_and_replayed_iff_recovered {repoId : String} {actions : List Action} {w : World}
    (hrun : Run.exec (step repoId) World.empty actions = some w) (hidle : w.current = none) :
    (Delivered w.history ∧
      ∀ r, r ∈ replay repoId w.history ↔ r ∈ artefactRecords repoId w.store.artefacts) ↔
        Recovered w.history := by
  have hinv : WorldInvariant repoId w :=
    Run.exec_invariant (WorldInvariant repoId) (fun _ _ _ h hstep => h.step hstep)
      worldInvariant_empty hrun
  rw [hinv.linked.delivered_iff]
  refine ⟨fun h => h.1, fun hrecovered => ⟨hrecovered, fun r => ?_⟩⟩
  rw [replay, hinv.idle hidle]
  refine hinv.linked.replay hrecovered (.inl fun r => ?_) r
  simp [artefactRecords]

/-! ## A batch that is committed and then lost -/

/-- A source file at `HEAD`. -/
def headCodeFile (path : String) : DesiredFileState where
  path := path
  analysisMode := .code
  fileRole := .sourceCode
  textIndexMode := .none
  language := "rust"
  resolvedLanguage := "rust"
  dialect := none
  primaryContextId := some "crate"
  secondaryContextIds := []
  frameworks := []
  runtimeProfile := none
  classificationReason := "source"
  contextFingerprint := none
  extractionFingerprint := "fingerprint"
  headContentId := some "blob"
  indexContentId := some "blob"
  worktreeContentId := some "blob"
  effectiveContentId := "blob"
  effectiveSource := .head
  existsInHead := true
  existsInIndex := true
  existsInWorktree := true

/-- A path sync of two files. -/
def twoFilesInput : SyncInput where
  mode := .paths ["a", "b"]
  taskId := some "task"
  initSessionId := none
  ignoredPaths := []
  desired := ⟨[headCodeFile "a", headCodeFile "b"], by decide⟩
  parserVersion := "1"
  extractorVersion := "1"
  activeBranch := some "main"
  headCommitSha := none

/-- The artefact of a file. -/
def fileArtefact (path : String) : MaterializedArtefact where
  symbolId := path
  artefactId := path
  canonicalKind := some "file"
  symbolFqn := path

/-- Both files are committed in one sync whose generation is recorded. -/
def recordedActions : List Action :=
  [.start twoFilesInput, .run (.prepared "a" (some [fileArtefact "a"])),
    .run (.prepared "b" (some [fileArtefact "b"])), .run .flush, .finish .enqueued]

/-- The sync fails after its first batch; the next one finds the file unchanged. -/
def lostBatchActions : List Action :=
  [.start twoFilesInput, .run (.prepared "a" (some [fileArtefact "a"])), .run .flush,
    .finish .syncFailed, .start twoFilesInput, .run (.prepared "b" (some [fileArtefact "b"])),
    .run .flush, .finish .enqueued]

theorem recordedActions_delivered :
    ∃ w, Run.exec (step "repo") World.empty recordedActions = some w ∧
      w.store.artefacts.rows.map (·.path) = ["a", "b"] ∧ Delivered w.history ∧
        ∀ r, r ∈ replay "repo" w.history ↔ r ∈ artefactRecords "repo" w.store.artefacts := by
  have hfacts : (Run.exec (step "repo") World.empty recordedActions).map
      (fun w => (w.current.isNone, w.store.artefacts.rows.map (·.path),
        decide (Recovered w.history))) = some (true, ["a", "b"], true) := by decide
  obtain ⟨w, hrun, hfacts⟩ := Option.map_eq_some_iff.mp hfacts
  simp only [Prod.mk.injEq, Option.isNone_iff_eq_none, decide_eq_true_eq] at hfacts
  obtain ⟨hidle, hpaths, hrecovered⟩ := hfacts
  exact ⟨w, hrun, hpaths, (delivered_and_replayed_iff_recovered hrun hidle).mpr hrecovered⟩

theorem lost_batch_not_delivered :
    ∃ w, Run.exec (step "repo") World.empty lostBatchActions = some w ∧ w.current = none ∧
      ¬ Delivered w.history ∧
        ¬ ∀ r, r ∈ replay "repo" w.history ↔ r ∈ artefactRecords "repo" w.store.artefacts := by
  have hfacts : (Run.exec (step "repo") World.empty lostBatchActions).map
      (fun w => (w.current.isNone, decide (Delivered w.history), (replay "repo" w.history).map (·.path),
        (artefactRecords "repo" w.store.artefacts).map (·.path))) =
      some (true, false, ["b"], ["a", "b"]) := by decide
  obtain ⟨w, hrun, hfacts⟩ := Option.map_eq_some_iff.mp hfacts
  simp only [Prod.mk.injEq, Option.isNone_iff_eq_none, decide_eq_false_iff_not] at hfacts
  obtain ⟨hidle, hmissing, hreplayed, hstored⟩ := hfacts
  refine ⟨w, hrun, hidle, hmissing, fun hsame => ?_⟩
  have ha : "a" ∈ (artefactRecords "repo" w.store.artefacts).map (·.path) := by
    rw [hstored]
    exact List.mem_cons_self
  obtain ⟨r, hr, hpath⟩ := List.mem_map.mp ha
  have hreplay := List.mem_map_of_mem (f := (·.path)) ((hsame r).mpr hr)
  rw [hreplayed, hpath] at hreplay
  exact absurd (List.mem_singleton.mp hreplay) (by decide)

/-! ## What a generation says -/

/-- **Every generation says what its run changed.**  In every state of the repository, the runs
that ended follow each other from the empty table, what each of them recorded is the difference
between the tables before and after it, and without a sync in progress the stored table is the
last one. -/
theorem generations_sound {repoId : String} {actions : List Action} {w : World}
    (hrun : Run.exec (step repoId) World.empty actions = some w) :
    Linked repoId .empty w.history ∧
      (w.current = none → w.store.artefacts = finalArtefacts .empty w.history) := by
  have hinv : WorldInvariant repoId w :=
    Run.exec_invariant (WorldInvariant repoId) (fun _ _ _ h hstep => h.step hstep)
      worldInvariant_empty hrun
  exact ⟨hinv.linked, hinv.idle⟩

theorem recordedActions_sound :
    ∃ w, Run.exec (step "repo") World.empty recordedActions = some w ∧ w.history.length = 1 ∧
      Linked "repo" .empty w.history := by
  have hfacts : (Run.exec (step "repo") World.empty recordedActions).map
      (fun w => w.history.length) = some 1 := by decide
  obtain ⟨w, hrun, hlength⟩ := Option.map_eq_some_iff.mp hfacts
  exact ⟨w, hrun, hlength, (generations_sound hrun).1⟩

end Sync
end Bitloops
