import Bitloops.LanguageAdapter.RustImports

/-!
# Use trees and their texts

A use tree is a path, perhaps renamed, or a group of use trees behind a path.  Its leaves are the
paths of its items.  Between its tokens a text may have whitespace anywhere; only the name `as` is
set off by a space on either side.

The expansion of a text of a use tree lists its leaves in order.  What it gives for a leaf is a
text of the path of the leaf, with the whitespace that stood around its `::`.
-/

namespace Bitloops
namespace LanguageAdapter

open Brackets

/-! ## Use trees -/

/-- No whitespace, and none of the characters between segments. -/
def isSegmentChar (c : Char) : Bool :=
  !isWhitespace c && c ≠ '{' && c ≠ '}' && c ≠ ',' && c ≠ ':'

/-- A segment of a path: a name, a keyword such as `self`, or `*`. -/
structure Segment where
  text : Text
  nonempty : text ≠ []
  not_as : text ≠ ['a', 's']
  chars : ∀ c ∈ text, isSegmentChar c = true

inductive UseTree where
  | path (segments : List Segment) (renamed : Option Segment)
  | group (before : List Segment) (members : List UseTree)

mutual

/-- The paths of the items, without their aliases. -/
def UseTree.leaves : UseTree → List (List Segment)
  | .path segments _ => [segments]
  | .group before members => (leavesOf members).map (before ++ ·)

def leavesOf : List UseTree → List (List Segment)
  | [] => []
  | tree :: trees => tree.leaves ++ leavesOf trees

end

theorem leavesOf_eq_flatMap (trees : List UseTree) : leavesOf trees = trees.flatMap (·.leaves) := by
  induction trees with
  | nil => rw [leavesOf, List.flatMap_nil]
  | cons tree trees ih => rw [leavesOf, List.flatMap_cons, ih]

/-! ## Their texts -/

def Blank (text : Text) : Prop := ∀ c ∈ text, isWhitespace c = true

def colons : Text := [':', ':']

inductive PathText : List Segment → Text → Prop
  | single (segment : Segment) : PathText [segment] segment.text
  | cons (segment : Segment) {segments : List Segment} {w w' text : Text} (hw : Blank w)
      (hw' : Blank w') (rest : PathText segments text) :
      PathText (segment :: segments) (segment.text ++ (w ++ (colons ++ (w' ++ text))))

/-- What stands before the brace of a group. -/
inductive LeadText : List Segment → Text → Prop
  | nil : LeadText [] []
  | path {segments : List Segment} {text w w' : Text} (h : PathText segments text) (hw : Blank w)
      (hw' : Blank w') : LeadText segments (text ++ (w ++ (colons ++ w')))

/-- A member of a group with its text and the whitespace around it. -/
structure Written where
  before : Text
  tree : UseTree
  text : Text
  after : Text

def Written.padded (m : Written) : Text := m.before ++ m.text ++ m.after

inductive TreeText : UseTree → Text → Prop
  | path {segments : List Segment} {text : Text} (h : PathText segments text) :
      TreeText (.path segments none) text
  | renamed {segments : List Segment} {text w w' : Text} (h : PathText segments text)
      (hw : Blank w) (hw' : Blank w') (name : Segment) :
      TreeText (.path segments (some name))
        (text ++ (w ++ ([' ', 'a', 's', ' '] ++ (w' ++ name.text))))
  /-- The last piece may be a blank one, after the last comma or in a group without members. -/
  | group {before : List Segment} {lead : Text} (hlead : LeadText before lead)
      (members : List Written) (tail : List Text)
      (hblank : ∀ m ∈ members, Blank m.before ∧ Blank m.after)
      (hmembers : ∀ m ∈ members, TreeText m.tree m.text)
      (htail : tail.length ≤ 1 ∧ ∀ w ∈ tail, Blank w) :
      TreeText (.group before (members.map (·.tree)))
        (lead ++ ('{' :: [','].intercalate (members.map Written.padded ++ tail) ++ ['}']))

/-! ## Whitespace -/

variable {text text' w w' k : Text} {segments : List Segment}

theorem blank_nil : Blank [] := fun _ h => absurd h List.not_mem_nil

/-- Nothing is to be trimmed. -/
structure Tight (text : Text) : Prop where
  head : ∃ c rest, text = c :: rest ∧ isWhitespace c = false
  last : ∃ rest c, text = rest ++ [c] ∧ isWhitespace c = false

theorem dropWhile_blank (hw : Blank w) (text : Text) :
    (w ++ text).dropWhile isWhitespace = text.dropWhile isWhitespace := by
  induction w with
  | nil => rfl
  | cons c w ih =>
    rw [List.cons_append, List.dropWhile_cons_of_pos (hw c List.mem_cons_self)]
    exact ih fun x hx => hw x (List.mem_cons_of_mem c hx)

theorem Blank.reverse (hw : Blank w) : Blank w.reverse := fun c hc => hw c (List.mem_reverse.mp hc)

theorem trim_padded (hw : Blank w) (hw' : Blank w') (h : Tight text) :
    trim (w ++ text ++ w') = text := by
  obtain ⟨⟨c, rest, hhead, hc⟩, ⟨front, d, hlast, hd⟩⟩ := h
  have hstart : (text ++ w').dropWhile isWhitespace = text ++ w' := by
    rw [hhead, List.cons_append, List.dropWhile_cons_of_neg (by rw [hc]; decide)]
  have hend : (text ++ w').reverse.dropWhile isWhitespace = text.reverse := by
    rw [List.reverse_append, dropWhile_blank hw'.reverse, hlast, List.reverse_append,
      List.reverse_singleton, List.singleton_append,
      List.dropWhile_cons_of_neg (by rw [hd]; decide)]
  rw [trim, List.append_assoc, dropWhile_blank hw, hstart, hend, List.reverse_reverse]

theorem trim_tight (h : Tight text) : trim text = text := by
  have htrim := trim_padded blank_nil blank_nil h
  rwa [List.nil_append, List.append_nil] at htrim

theorem trim_blank (hw : Blank w) : trim w = [] := by
  have hdrop := dropWhile_blank hw []
  rw [List.append_nil] at hdrop
  rw [trim, hdrop]
  rfl

theorem Tight.append (h : Tight text) (h' : Tight text') (between : Text) :
    Tight (text ++ (between ++ text')) := by
  obtain ⟨⟨c, rest, rfl, hc⟩, -⟩ := h
  obtain ⟨-, ⟨front, d, rfl, hd⟩⟩ := h'
  exact ⟨⟨c, rest ++ (between ++ (front ++ [d])), rfl, hc⟩,
    ⟨c :: rest ++ (between ++ front), d, by simp only [List.append_assoc], hd⟩⟩

theorem Tight.ne_nil (h : Tight text) : text ≠ [] := by
  obtain ⟨⟨c, rest, rfl, -⟩, -⟩ := h
  exact List.cons_ne_nil c rest

theorem tight_of_forall (hne : text ≠ []) (h : ∀ c ∈ text, isWhitespace c = false) :
    Tight text := by
  refine ⟨⟨text.head hne, text.tail, (List.cons_head_tail hne).symm, h _ (List.head_mem hne)⟩,
    ⟨text.dropLast, text.getLast hne, (List.dropLast_concat_getLast hne).symm,
      h _ (List.getLast_mem hne)⟩⟩

theorem Segment.not_whitespace (segment : Segment) : ∀ c ∈ segment.text, isWhitespace c = false := by
  intro c hc
  have hchar := segment.chars c hc
  simp only [isSegmentChar, Bool.and_eq_true, Bool.not_eq_true'] at hchar
  exact hchar.1.1.1.1

theorem Segment.tight (segment : Segment) : Tight segment.text :=
  tight_of_forall segment.nonempty segment.not_whitespace

theorem PathText.tight (h : PathText segments text) : Tight text := by
  induction h with
  | single segment => exact segment.tight
  | @cons segment segments w w' text _ _ _ ih =>
    have htight := segment.tight.append ih (w ++ (colons ++ w'))
    simpa only [List.append_assoc] using htight

theorem TreeText.tight {tree : UseTree} (h : TreeText tree text) : Tight text := by
  have hbrace : ∀ inside : Text, Tight ('{' :: inside ++ ['}']) := fun inside =>
    ⟨⟨'{', inside ++ ['}'], rfl, by decide⟩, ⟨'{' :: inside, '}', rfl, by decide⟩⟩
  cases h with
  | path h => exact h.tight
  | @renamed segments text w w' h _ _ name =>
    have htight := h.tight.append name.tight (w ++ ([' ', 'a', 's', ' '] ++ w'))
    simpa only [List.append_assoc] using htight
  | @group before lead hlead members tail _ _ _ =>
    cases hlead with
    | nil => exact hbrace _
    | @path _ text w w' hpath _ _ =>
      have htight := hpath.tight.append
        (hbrace ([','].intercalate (members.map Written.padded ++ tail))) (w ++ (colons ++ w'))
      simpa only [List.append_assoc] using htight

/-! ## Aliases -/

/-- A segment does not go on here. -/
def EndsSegment (k : Text) : Prop := ∀ c ∈ k.head?, isSegmentChar c = false

theorem endsSegment_blank (hw : Blank w) (hk : EndsSegment k) : EndsSegment (w ++ k) := by
  cases w with
  | nil => exact hk
  | cons c w =>
    intro d hd
    obtain rfl := Option.some.inj hd
    simp [isSegmentChar, hw c List.mem_cons_self]

theorem beforeAs_append (h : ∀ c ∈ text, c ≠ ' ') (k : Text) :
    beforeAs (text ++ k) = text ++ beforeAs k := by
  induction text with
  | nil => rfl
  | cons c text ih =>
    have hc : (' ' == c) = false := beq_eq_false_iff_ne.mpr (h c List.mem_cons_self).symm
    have hleading : [' ', 'a', 's', ' '].isPrefixOf (c :: (text ++ k)) = false := by
      rw [List.isPrefixOf_cons_cons, hc, Bool.false_and]
    rw [List.cons_append, beforeAs, hleading, if_neg (by decide),
      ih fun x hx => h x (List.mem_cons_of_mem c hx), List.cons_append]

theorem beforeAs_blank (hw : Blank w) (hk : ['a', 's', ' '].isPrefixOf k = false) :
    beforeAs (w ++ k) = w ++ beforeAs k := by
  induction w with
  | nil => rfl
  | cons c w ih =>
    have hrest : Blank w := fun x hx => hw x (List.mem_cons_of_mem c hx)
    have hnext : ['a', 's', ' '].isPrefixOf (w ++ k) = false := by
      cases w with
      | nil => exact hk
      | cons d w =>
        have hd : ('a' == d) = false := beq_eq_false_iff_ne.mpr fun h => by
          have hblank := hrest d List.mem_cons_self
          rw [← h] at hblank
          exact absurd hblank (by decide)
        rw [List.cons_append, List.isPrefixOf_cons_cons, hd, Bool.false_and]
    have hleading : [' ', 'a', 's', ' '].isPrefixOf (c :: (w ++ k)) = false := by
      rw [List.isPrefixOf_cons_cons, hnext, Bool.and_false]
    rw [List.cons_append, beforeAs, hleading, if_neg (by decide), ih hrest, List.cons_append]

/-- No segment is taken for the name before an alias. -/
theorem not_as_prefix (segment : Segment) (hk : EndsSegment k) :
    ['a', 's', ' '].isPrefixOf (segment.text ++ k) = false := by
  obtain ⟨text, hne, hnotAs, hchars⟩ := segment
  refine Bool.eq_false_iff.mpr fun hleading => ?_
  obtain ⟨rest, hrest⟩ := List.isPrefixOf_iff_prefix.mp hleading
  replace hrest : 'a' :: 's' :: ' ' :: rest = text ++ k := hrest
  match text, hne, hnotAs, hchars with
  | [c], _, _, _ =>
    obtain ⟨-, hk'⟩ := List.cons.inj hrest
    replace hk' : 's' :: ' ' :: rest = k := hk'
    have hs := hk 's' (by rw [← hk']; rfl)
    exact absurd hs (by decide)
  | [c, d], _, hnotAs, _ =>
    obtain ⟨hc, hrest⟩ := List.cons.inj hrest
    obtain ⟨hd, -⟩ := List.cons.inj hrest
    exact hnotAs (by rw [← hc, ← hd])
  | c :: d :: e :: text, _, _, hchars =>
    obtain ⟨-, hrest⟩ := List.cons.inj hrest
    obtain ⟨-, hrest⟩ := List.cons.inj hrest
    obtain ⟨he, -⟩ := List.cons.inj hrest
    have hspace := hchars e (by simp)
    rw [← he] at hspace
    exact absurd hspace (by decide)

theorem Segment.not_space (segment : Segment) : ∀ c ∈ segment.text, c ≠ ' ' := by
  intro c hc hspace
  have hblank := segment.not_whitespace c hc
  rw [hspace] at hblank
  exact absurd hblank (by decide)

theorem PathText.not_as_prefix (h : PathText segments text) (hk : EndsSegment k) :
    ['a', 's', ' '].isPrefixOf (text ++ k) = false := by
  cases h with
  | single segment => exact LanguageAdapter.not_as_prefix segment hk
  | cons segment hw hw' rest =>
    rw [List.append_assoc]
    refine LanguageAdapter.not_as_prefix segment ?_
    rw [List.append_assoc]
    refine endsSegment_blank hw fun c hc => ?_
    obtain rfl := Option.some.inj hc
    decide

/-- No alias is found in a path. -/
theorem PathText.beforeAs (h : PathText segments text) (hk : EndsSegment k) :
    beforeAs (text ++ k) = text ++ LanguageAdapter.beforeAs k := by
  induction h generalizing k with
  | single segment => exact beforeAs_append segment.not_space k
  | @cons segment segments w w' text hw hw' rest ih =>
    have hcolons : ∀ c ∈ colons, c ≠ ' ' := by decide
    simp only [List.append_assoc]
    rw [beforeAs_append segment.not_space, beforeAs_blank hw rfl, beforeAs_append hcolons,
      beforeAs_blank hw' (rest.not_as_prefix hk), ih hk]

theorem PathText.strip (h : PathText segments text) : stripRustImportAlias text = text := by
  have hbefore := h.beforeAs (k := []) fun c hc => nomatch hc
  rw [List.append_nil] at hbefore
  rw [stripRustImportAlias, hbefore, LanguageAdapter.beforeAs, List.append_nil, trim_tight h.tight]

/-- The alias of a path goes, and nothing else. -/
theorem PathText.strip_renamed (h : PathText segments text) (hw : Blank w) (k : Text) :
    stripRustImportAlias (text ++ (w ++ ([' ', 'a', 's', ' '] ++ k))) = text := by
  have hends : EndsSegment (w ++ ([' ', 'a', 's', ' '] ++ k)) :=
    endsSegment_blank hw fun c hc => by
      obtain rfl := Option.some.inj hc
      decide
  have hstop : LanguageAdapter.beforeAs ([' ', 'a', 's', ' '] ++ k) = [] := by
    simp [LanguageAdapter.beforeAs]
  have htrim := trim_padded blank_nil hw h.tight
  rw [stripRustImportAlias, h.beforeAs hends, beforeAs_blank hw rfl, hstop, List.append_nil]
  exact htrim

/-! ## Braces and commas -/

def Plain (text : Text) : Prop := ∀ c ∈ text, c ≠ '{' ∧ c ≠ '}' ∧ c ≠ ','

theorem Plain.append (h : Plain text) (h' : Plain text') : Plain (text ++ text') :=
  fun c hc => (List.mem_append.mp hc).elim (h c) (h' c)

theorem plain_blank (hw : Blank w) : Plain w := by
  intro c hc
  have hblank := hw c hc
  refine ⟨?_, ?_, ?_⟩ <;>
  · rintro rfl
    exact absurd hblank (by decide)

theorem Segment.plain (segment : Segment) : Plain segment.text := by
  intro c hc
  have hchar := segment.chars c hc
  simp only [isSegmentChar, Bool.and_eq_true, decide_eq_true_eq] at hchar
  exact ⟨hchar.1.1.1.2, hchar.1.1.2, hchar.1.2⟩

theorem plain_colons : Plain colons := by unfold Plain; decide

theorem PathText.plain (h : PathText segments text) : Plain text := by
  induction h with
  | single segment => exact segment.plain
  | cons segment hw hw' _ ih =>
    exact segment.plain.append ((plain_blank hw).append (plain_colons.append
      ((plain_blank hw').append ih)))

theorem LeadText.plain (h : LeadText segments text) : Plain text := by
  cases h with
  | nil => exact fun _ h => absurd h List.not_mem_nil
  | path h hw hw' =>
    exact h.plain.append ((plain_blank hw).append (plain_colons.append (plain_blank hw')))

theorem Plain.closed (h : Plain text) : Closed '{' '}' ',' text := closed_of_forall h

/-- What stands between the braces of a group. -/
def insideOf (members : List Written) (tail : List Text) : Text :=
  [','].intercalate (members.map Written.padded ++ tail)

/-- The pieces of a group have their commas in braces. -/
theorem closed_pieces {members : List Written} {tail : List Text}
    (hblank : ∀ m ∈ members, Blank m.before ∧ Blank m.after)
    (hmembers : ∀ m ∈ members, Closed '{' '}' ',' m.text) (htail : ∀ w ∈ tail, Blank w) :
    ∀ piece ∈ members.map Written.padded ++ tail, Closed '{' '}' ',' piece := by
  intro piece hpiece
  rcases List.mem_append.mp hpiece with hpiece | hpiece
  · obtain ⟨m, hm, rfl⟩ := List.mem_map.mp hpiece
    obtain ⟨hbefore, hafter⟩ := hblank m hm
    exact ((plain_blank hbefore).closed.append (hmembers m hm)).append (plain_blank hafter).closed
  · exact (plain_blank (htail piece hpiece)).closed

theorem TreeText.closed {tree : UseTree} (h : TreeText tree text) : Closed '{' '}' ',' text := by
  induction h with
  | path h => exact h.plain.closed
  | renamed h hw hw' name =>
    have has : Plain [' ', 'a', 's', ' '] := by unfold Plain; decide
    exact (h.plain.append ((plain_blank hw).append (has.append
      ((plain_blank hw').append name.plain)))).closed
  | group hlead members tail hblank _ htail ih =>
    have hpieces := closed_pieces hblank ih htail.2
    exact hlead.plain.closed.append (closed_group (balanced_intercalate (by decide) (by decide)
      fun piece hpiece => (hpieces piece hpiece).balanced))

theorem findTopLevelChar_plain (h : Plain text) (idx : ℕ) (k : Text) :
    findTopLevelChar '{' 0 idx (text ++ '{' :: k) = some (idx + text.length) := by
  induction text generalizing idx with
  | nil => rfl
  | cons c text ih =>
    obtain ⟨hopen, hclose, -⟩ := h c List.mem_cons_self
    have hother : ¬ (c = '{' ∧ (0 : ℤ) = 0) := fun hc => hopen hc.1
    rw [List.cons_append, findTopLevelChar, if_neg hopen, if_neg hclose, if_neg hother,
      ih fun x hx => h x (List.mem_cons_of_mem c hx), List.length_cons]
    congr 1
    omega

theorem findTopLevelChar_eq_none {depth : ℤ} {idx : ℕ} (h : ∀ c ∈ text, c ≠ '{') :
    findTopLevelChar '{' depth idx text = none := by
  induction text generalizing depth idx with
  | nil => rfl
  | cons c text ih =>
    have hopen := h c List.mem_cons_self
    have hother : ¬ (c = '{' ∧ depth = 0) := fun hc => hopen hc.1
    have hrest := fun x hx => h x (List.mem_cons_of_mem c hx)
    rw [findTopLevelChar, if_neg hopen, if_neg hother]
    split_ifs
    · exact ih hrest
    · exact ih hrest

/-! ## Expanding one level -/

/-- An expression without braces is one path. -/
theorem expand_plain (hw : Blank w) (hw' : Blank w') (h : Tight text)
    (hplain : ∀ c ∈ text, c ≠ '{') :
    expandRustImportExpression (w ++ text ++ w') = [stripRustImportAlias text] := by
  rw [expandRustImportExpression, expandWithFuel, trim_padded hw hw' h]
  dsimp only
  rw [if_neg h.ne_nil, findTopLevelChar_eq_none hplain]
  rfl

/-- A group is expanded part by part. -/
theorem expandWithFuel_group {lead inside : Text} (hw : Blank w) (hw' : Blank w')
    (h : Tight (lead ++ ('{' :: inside ++ ['}']))) (hlead : Plain lead)
    (hinside : Balanced '{' '}' inside) (fuel : ℕ) :
    expandWithFuel (fuel + 1) (w ++ (lead ++ ('{' :: inside ++ ['}'])) ++ w') =
      ((splitTopLevelCommas inside).mapM (expandWithFuel fuel)).map fun expanded =>
        expanded.flatten.filterMap (combine (trimEndColons (trim lead)) []) := by
  have hopen : findTopLevelChar '{' 0 0 (lead ++ ('{' :: inside ++ ['}'])) = some lead.length := by
    rw [List.cons_append, findTopLevelChar_plain hlead, Nat.zero_add]
  have hdrop : (lead ++ ('{' :: inside ++ ['}'])).drop lead.length = '{' :: inside ++ ['}'] :=
    List.drop_left
  have hclose : findMatchingBrace (lead ++ ('{' :: inside ++ ['}'])) lead.length =
      some (lead.length + 1 + inside.length) := by
    rw [findMatchingBrace, hdrop, closeAt_closing (by decide) hinside]
  have hafter : (lead ++ ('{' :: inside ++ ['}'])).drop (lead.length + 1) = inside ++ ['}'] := by
    rw [← List.drop_drop, hdrop]
    rfl
  have hbetween : ((lead ++ ('{' :: inside ++ ['}'])).drop (lead.length + 1)).take
      (lead.length + 1 + inside.length - (lead.length + 1)) = inside := by
    rw [hafter, Nat.add_sub_cancel_left, List.take_left]
  have hrest : (lead ++ ('{' :: inside ++ ['}'])).drop (lead.length + 1 + inside.length + 1) =
      [] := by
    refine List.drop_eq_nil_of_le ?_
    simp only [List.length_append, List.length_cons, List.length_nil]
    omega
  have hbefore : (lead ++ ('{' :: inside ++ ['}'])).take lead.length = lead := List.take_left
  rw [expandWithFuel, trim_padded hw hw' h]
  dsimp only
  rw [if_neg h.ne_nil, hopen]
  dsimp only
  rw [hclose]
  dsimp only
  rw [hbefore, hbetween, hrest]
  rfl

theorem expand_group {lead inside : Text} (hw : Blank w) (hw' : Blank w')
    (h : Tight (lead ++ ('{' :: inside ++ ['}']))) (hlead : Plain lead)
    (hinside : Balanced '{' '}' inside) :
    expandRustImportExpression (w ++ (lead ++ ('{' :: inside ++ ['}'])) ++ w') =
      ((splitTopLevelCommas inside).flatMap expandRustImportExpression).filterMap
        (combine (trimEndColons (trim lead)) []) := by
  rw [expandRustImportExpression, expandWithFuel_group hw hw' h hlead hinside]
  generalize hfuel : (w ++ (lead ++ ('{' :: inside ++ ['}'])) ++ w').length = fuel
  have hparts : (splitTopLevelCommas inside).mapM (expandWithFuel fuel) =
      some ((splitTopLevelCommas inside).map expandRustImportExpression) := by
    refine Results.mapM_eq_some.mpr (List.forall₂_map_right_iff.mpr (List.forall₂_same.mpr ?_))
    intro part hpart
    refine expandWithFuel_eq ?_
    have hle := length_le_of_mem_splitTopLevelCommas hpart
    simp only [List.length_append, List.length_cons, List.length_nil] at hfuel
    omega
  rw [hparts]
  rfl

/-! ## The members of a group -/

/-- The parts of a group are the texts of its members. -/
theorem splitTopLevelCommas_insideOf {members : List Written} {tail : List Text}
    (hblank : ∀ m ∈ members, Blank m.before ∧ Blank m.after)
    (hmembers : ∀ m ∈ members, TreeText m.tree m.text)
    (htail : tail.length ≤ 1 ∧ ∀ w ∈ tail, Blank w) :
    splitTopLevelCommas (insideOf members tail) = members.map (·.text) := by
  have hpieces := closed_pieces hblank (fun m hm => (hmembers m hm).closed) htail.2
  have hmember : (members.map fun m => trim m.padded) = members.map (·.text) :=
    List.map_congr_left fun m hm =>
      trim_padded (hblank m hm).1 (hblank m hm).2 (hmembers m hm).tight
  have htexts : (members.map (·.text)).filter (· ≠ []) = members.map (·.text) := by
    refine List.filter_eq_self.mpr fun text htext => ?_
    obtain ⟨m, hm, rfl⟩ := List.mem_map.mp htext
    exact decide_eq_true (hmembers m hm).tight.ne_nil
  have htrimmed : (tail.map trim).filter (· ≠ []) = [] := by
    refine List.filter_eq_nil_iff.mpr fun text htext => ?_
    obtain ⟨w, hw, rfl⟩ := List.mem_map.mp htext
    rw [trim_blank (htail.2 w hw)]
    decide
  have hall : ((members.map Written.padded ++ tail).map trim).filter (· ≠ []) =
      members.map (·.text) := by
    rw [List.map_append, List.filter_append, htrimmed, List.append_nil, List.map_map]
    exact (congrArg _ hmember).trans htexts
  unfold splitTopLevelCommas insideOf
  cases hlist : members.map Written.padded ++ tail with
  | nil =>
    rw [hlist] at hall
    rw [← hall]
    rfl
  | cons piece pieces =>
    rw [splitTop_intercalate (by decide) (by decide) (by decide) (hlist ▸ hpieces), ← hlist]
    exact hall

/-! ## Paths behind a path -/

theorem PathText.append {segments' : List Segment} (h : PathText segments text) (hw : Blank w)
    (h' : PathText segments' text') :
    PathText (segments ++ segments') (text ++ (w ++ (colons ++ text'))) := by
  induction h with
  | single segment => exact .cons segment hw blank_nil h'
  | @cons segment segments v v' text hv hv' _ ih =>
    have hcons := PathText.cons segment hv hv' ih
    simpa only [List.append_assoc, List.cons_append] using hcons

theorem combine_path {x : Text} (h : PathText segments text) :
    combine x [] text = some (if x = [] then text else x ++ (colons ++ text)) := by
  unfold combine
  dsimp only
  rw [h.strip, if_neg h.tight.ne_nil, if_pos rfl, List.append_assoc]
  rfl

theorem trimStartColons_of_head (h : ∀ c ∈ text.head?, c ≠ ':') : trimStartColons text = text := by
  unfold trimStartColons
  split
  · exact absurd rfl (h ':' rfl)
  · rfl

/-- The `::` before the brace goes, and the whitespace before it stays. -/
theorem trimEndColons_lead {x : Text} (hhead : ∃ c rest, x = c :: rest ∧ isWhitespace c = false)
    (hlast : ∀ c ∈ x.getLast?, c ≠ ':') (hw : Blank w) :
    trimEndColons (trim (x ++ (colons ++ w))) = x := by
  have htight : Tight (x ++ colons) := by
    obtain ⟨c, rest, rfl, hc⟩ := hhead
    exact ⟨⟨c, rest ++ colons, rfl, hc⟩, ⟨c :: rest ++ [':'], ':', by simp [colons], by decide⟩⟩
  have htrim := trim_padded blank_nil hw htight
  rw [List.nil_append, List.append_assoc] at htrim
  have hreverse : (x ++ colons).reverse = ':' :: ':' :: x.reverse := by simp [colons]
  rw [htrim, trimEndColons, hreverse, trimStartColons, trimStartColons_of_head,
    List.reverse_reverse]
  rwa [List.head?_reverse]

/-! ## The leaves of a use tree -/

theorem PathText.ends (h : PathText segments text) : ∀ c ∈ text.getLast?, c ≠ ':' := by
  induction h with
  | single segment =>
    rintro c hc rfl
    have hchar := segment.chars ':' (List.mem_of_getLast? hc)
    exact absurd hchar (by decide)
  | @cons segment segments w w' text _ _ rest ih =>
    obtain ⟨front, d, hd, -⟩ := rest.tight.last
    intro c hc
    refine ih c ?_
    rw [hd] at hc ⊢
    simpa only [← List.append_assoc, List.getLast?_append, List.getLast?_singleton,
      Option.some_or] using hc

theorem ends_append_blank (h : ∀ c ∈ text.getLast?, c ≠ ':') (hw : Blank w) :
    ∀ c ∈ (text ++ w).getLast?, c ≠ ':' := by
  intro c hc
  rw [List.getLast?_append] at hc
  cases hlast : w.getLast? with
  | none =>
    rw [hlast] at hc
    exact h c hc
  | some d =>
    rw [hlast] at hc
    obtain rfl := Option.some.inj hc
    rintro rfl
    exact absurd (hw ':' (List.mem_of_getLast? hlast)) (by decide)

/-- The texts of the leaves behind a path. -/
theorem forall₂_behind {x : Text} {before : List Segment} {leaves : List (List Segment)}
    {texts : List Text} (h : List.Forall₂ PathText leaves texts)
    {R : List Segment → Text → Prop}
    (hbehind : ∀ leaf text, PathText leaf text →
      R (before ++ leaf) (if x = [] then text else x ++ (colons ++ text))) :
    List.Forall₂ R (leaves.map (before ++ ·)) (texts.filterMap (combine x [])) := by
  induction h with
  | nil => exact .nil
  | @cons leaf text leaves texts hleaf _ ih =>
    rw [List.filterMap_cons_some (combine_path hleaf)]
    exact .cons (hbehind leaf text hleaf) ih

theorem forall₂_flatMap {α β γ : Type*} {R : β → γ → Prop} {f : α → List β} {g : α → List γ}
    {l : List α} (h : ∀ x ∈ l, List.Forall₂ R (f x) (g x)) :
    List.Forall₂ R (l.flatMap f) (l.flatMap g) := by
  induction l with
  | nil => exact .nil
  | cons x l ih =>
    rw [List.flatMap_cons, List.flatMap_cons]
    exact List.rel_append (h x List.mem_cons_self) (ih fun y hy => h y (List.mem_cons_of_mem x hy))

/-- The leaves of a group are those of its parts, behind what stands before the brace. -/
theorem leaves_group {x lead : Text} {before : List Segment} {members : List Written}
    {tail : List Text} (hblank : ∀ m ∈ members, Blank m.before ∧ Blank m.after)
    (hmembers : ∀ m ∈ members, TreeText m.tree m.text)
    (htail : tail.length ≤ 1 ∧ ∀ w ∈ tail, Blank w)
    (hexpand : ∀ m ∈ members,
      List.Forall₂ PathText m.tree.leaves (expandRustImportExpression m.text))
    (hw : Blank w) (hw' : Blank w') (htight : Tight (lead ++ ('{' :: insideOf members tail ++ ['}'])))
    (hlead : Plain lead) (hx : trimEndColons (trim lead) = x) {R : List Segment → Text → Prop}
    (hbehind : ∀ leaf text, PathText leaf text →
      R (before ++ leaf) (if x = [] then text else x ++ (colons ++ text))) :
    List.Forall₂ R (UseTree.group before (members.map (·.tree))).leaves
      (expandRustImportExpression (w ++ (lead ++ ('{' :: insideOf members tail ++ ['}'])) ++ w')) := by
  have hpieces := closed_pieces hblank (fun m hm => (hmembers m hm).closed) htail.2
  have hinside : Balanced '{' '}' (insideOf members tail) :=
    balanced_intercalate (by decide) (by decide) fun piece hpiece => (hpieces piece hpiece).balanced
  rw [expand_group hw hw' htight hlead hinside, splitTopLevelCommas_insideOf hblank hmembers htail,
    hx, UseTree.leaves, leavesOf_eq_flatMap, List.flatMap_map, List.flatMap_map]
  exact forall₂_behind (forall₂_flatMap hexpand) hbehind

/-- **The leaves of a use tree in order.**  The induction is on how the text is written. -/
theorem expand_treeText {tree : UseTree} (h : TreeText tree text) :
    ∀ w w', Blank w → Blank w' →
      List.Forall₂ PathText tree.leaves (expandRustImportExpression (w ++ text ++ w')) := by
  induction h with
  | path h =>
    intro w w' hw hw'
    rw [expand_plain hw hw' h.tight fun c hc => (h.plain c hc).1, h.strip]
    exact .cons h .nil
  | @renamed segments text v v' h hv hv' name =>
    intro w w' hw hw'
    have hall := TreeText.renamed h hv hv' name
    have has : Plain [' ', 'a', 's', ' '] := by unfold Plain; decide
    have hplain := h.plain.append ((plain_blank hv).append (has.append
      ((plain_blank hv').append name.plain)))
    rw [expand_plain hw hw' hall.tight fun c hc => (hplain c hc).1, h.strip_renamed hv]
    exact .cons h .nil
  | @group before lead hlead members tail hblank hmembers htail ih =>
    intro w w' hw hw'
    have hexpand : ∀ m ∈ members,
        List.Forall₂ PathText m.tree.leaves (expandRustImportExpression m.text) := by
      intro m hm
      have hmember := ih m hm [] [] blank_nil blank_nil
      rwa [List.nil_append, List.append_nil] at hmember
    have htight := (TreeText.group hlead members tail hblank hmembers htail).tight
    cases hlead with
    | nil =>
      refine leaves_group hblank hmembers htail hexpand hw hw' htight
        (fun _ h => absurd h List.not_mem_nil) (x := []) rfl fun leaf text hleaf => ?_
      rw [if_pos rfl]
      exact hleaf
    | @path _ text v v' hpath hv hv' =>
      have hx : trimEndColons (trim (text ++ (v ++ (colons ++ v')))) = text ++ v := by
        obtain ⟨c, rest, rfl, hc⟩ := hpath.tight.head
        rw [← List.append_assoc]
        exact trimEndColons_lead ⟨c, rest ++ v, rfl, hc⟩ (ends_append_blank hpath.ends hv) hv'
      have hne : text ++ v ≠ [] := fun h => hpath.tight.ne_nil (List.append_eq_nil_iff.mp h).1
      refine leaves_group hblank hmembers htail hexpand hw hw' htight
        (LeadText.path hpath hv hv').plain hx fun leaf text' hleaf => ?_
      rw [if_neg hne, List.append_assoc]
      exact hpath.append hv hleaf

/-! ## Use declarations -/

/-- The text between `use` and the semicolon.  A path may begin with `::`, but not a group whose
members are paths of their own. -/
inductive ExpressionText : Bool → UseTree → Text → Prop
  | relative {tree : UseTree} {text w w' : Text} (hw : Blank w) (hw' : Blank w')
      (h : TreeText tree text) : ExpressionText false tree (w ++ text ++ w')
  | absolute {tree : UseTree} {text w w' v : Text} (hw : Blank w) (hw' : Blank w') (hv : Blank v)
      (hgroup : ∀ members, tree ≠ .group [] members) (h : TreeText tree text) :
      ExpressionText true tree (w ++ (colons ++ (v ++ text)) ++ w')

/-- A text of the path of a leaf. -/
def LeafText (absolute : Bool) (leaf : List Segment) (text : Text) : Prop :=
  ∃ v path, Blank v ∧ PathText leaf path ∧ text = if absolute then colons ++ (v ++ path) else path

/-- The path without whitespace. -/
def pathOf (absolute : Bool) (segments : List Segment) : Text :=
  (if absolute then colons else []) ++ colons.intercalate (segments.map (·.text))

def withoutWhitespace (text : Text) : Text := text.filter fun c => !isWhitespace c

theorem withoutWhitespace_blank (hw : Blank w) : withoutWhitespace w = [] :=
  List.filter_eq_nil_iff.mpr fun c hc => by simp [hw c hc]

theorem withoutWhitespace_append (text text' : Text) :
    withoutWhitespace (text ++ text') = withoutWhitespace text ++ withoutWhitespace text' :=
  List.filter_append _ _

theorem Segment.withoutWhitespace (segment : Segment) :
    withoutWhitespace segment.text = segment.text :=
  List.filter_eq_self.mpr fun c hc => by simp [segment.not_whitespace c hc]

theorem PathText.withoutWhitespace (h : PathText segments text) :
    withoutWhitespace text = colons.intercalate (segments.map (·.text)) := by
  induction h with
  | single segment => rw [segment.withoutWhitespace, List.map_singleton, List.intercalate_singleton]
  | @cons segment segments w w' text hw hw' rest ih =>
    have hcolons : LanguageAdapter.withoutWhitespace colons = colons := rfl
    have hne : segments.map (·.text) ≠ [] := fun h => by
      rw [List.map_eq_nil_iff.mp h] at rest
      exact nomatch rest
    obtain ⟨first, others, hothers⟩ := List.exists_cons_of_ne_nil hne
    rw [List.map_cons, hothers, List.intercalate_cons_cons, ← hothers, ← ih]
    simp only [withoutWhitespace_append, segment.withoutWhitespace, withoutWhitespace_blank hw,
      withoutWhitespace_blank hw', hcolons, List.nil_append, List.append_assoc]

theorem LeafText.withoutWhitespace {absolute : Bool} {leaf : List Segment}
    (h : LeafText absolute leaf text) : withoutWhitespace text = pathOf absolute leaf := by
  obtain ⟨v, path, hv, hpath, rfl⟩ := h
  cases absolute with
  | false => exact hpath.withoutWhitespace
  | true =>
    show LanguageAdapter.withoutWhitespace (colons ++ (v ++ path)) = _
    rw [withoutWhitespace_append, withoutWhitespace_append, withoutWhitespace_blank hv,
      List.nil_append, hpath.withoutWhitespace]
    rfl

/-- Nothing of an absolute path is taken for an alias. -/
theorem strip_absolute {v : Text} (hv : Blank v) (h : Tight text) (hw : Blank w)
    (hbefore : beforeAs k = text ++ w) (hk : ['a', 's', ' '].isPrefixOf k = false) :
    stripRustImportAlias (colons ++ (v ++ k)) = colons ++ (v ++ text) := by
  have hcolons : Tight colons := ⟨⟨':', [':'], rfl, by decide⟩, ⟨[':'], ':', rfl, by decide⟩⟩
  have htrim := trim_padded blank_nil hw (hcolons.append h v)
  rw [List.nil_append] at htrim
  rw [stripRustImportAlias, beforeAs_append (by decide), beforeAs_blank hv hk, hbefore]
  simpa only [List.append_assoc] using htrim

theorem leaves_absolute {tree : UseTree} {v : Text} (hgroup : ∀ members, tree ≠ .group [] members)
    (h : TreeText tree text) (hw : Blank w) (hw' : Blank w') (hv : Blank v) :
    List.Forall₂ (LeafText true) tree.leaves
      (expandRustImportExpression (w ++ (colons ++ (v ++ text)) ++ w')) := by
  have hcolons : Tight colons := ⟨⟨':', [':'], rfl, by decide⟩, ⟨[':'], ':', rfl, by decide⟩⟩
  have htight := hcolons.append h.tight v
  have hends : EndsSegment [] := fun c hc => nomatch hc
  cases h with
  | @path segments _ hpath =>
    have hplain := plain_colons.append ((plain_blank hv).append hpath.plain)
    have hbefore := hpath.beforeAs hends
    have hnot := hpath.not_as_prefix hends
    rw [List.append_nil] at hbefore hnot
    rw [expand_plain hw hw' htight fun c hc => (hplain c hc).1,
      strip_absolute hv hpath.tight blank_nil hbefore hnot]
    exact .cons ⟨v, _, hv, hpath, rfl⟩ .nil
  | @renamed segments path u u' hpath hu hu' name =>
    have has : Plain [' ', 'a', 's', ' '] := by unfold Plain; decide
    have hplain := plain_colons.append ((plain_blank hv).append (hpath.plain.append
      ((plain_blank hu).append (has.append ((plain_blank hu').append name.plain)))))
    have hrest : EndsSegment (u ++ ([' ', 'a', 's', ' '] ++ (u' ++ name.text))) :=
      endsSegment_blank hu fun c hc => by
        obtain rfl := Option.some.inj hc
        decide
    have hstop : beforeAs ([' ', 'a', 's', ' '] ++ (u' ++ name.text)) = [] := by simp [beforeAs]
    have hbefore := hpath.beforeAs hrest
    rw [beforeAs_blank hu rfl, hstop, List.append_nil] at hbefore
    rw [expand_plain hw hw' htight fun c hc => (hplain c hc).1,
      strip_absolute hv hpath.tight hu hbefore (hpath.not_as_prefix hrest)]
    exact .cons ⟨v, _, hv, hpath, rfl⟩ .nil
  | @group before lead hlead members tail hblank hmembers htail =>
    have hexpand : ∀ m ∈ members,
        List.Forall₂ PathText m.tree.leaves (expandRustImportExpression m.text) := by
      intro m hm
      have hmember := expand_treeText (hmembers m hm) [] [] blank_nil blank_nil
      rwa [List.nil_append, List.append_nil] at hmember
    cases hlead with
    | nil => exact absurd rfl (hgroup _)
    | @path _ path u u' hpath hu hu' =>
      have hplain := plain_colons.append ((plain_blank hv).append (LeadText.path hpath hu hu').plain)
      have hx : trimEndColons (trim (colons ++ (v ++ (path ++ (u ++ (colons ++ u')))))) =
          colons ++ (v ++ (path ++ u)) := by
        have hlast : ∀ c ∈ (colons ++ (v ++ (path ++ u))).getLast?, c ≠ ':' := by
          obtain ⟨front, d, hd, -⟩ := hpath.tight.last
          have hpathEnds := ends_append_blank hpath.ends hu
          have hne : path ++ u ≠ [] := fun h => hpath.tight.ne_nil (List.append_eq_nil_iff.mp h).1
          intro c hc
          rw [List.getLast?_append, List.getLast?_append, List.getLast?_eq_some_getLast hne,
            Option.some_or, Option.some_or] at hc
          exact hpathEnds c (by rw [List.getLast?_eq_some_getLast hne]; exact hc)
        have hlead := trimEndColons_lead (x := colons ++ (v ++ (path ++ u)))
          ⟨':', ':' :: (v ++ (path ++ u)), rfl, by decide⟩ hlast hu'
        simpa only [List.append_assoc] using hlead
      have hne : colons ++ (v ++ (path ++ u)) ≠ [] := List.cons_ne_nil _ _
      have htext : colons ++ (v ++ ((path ++ (u ++ (colons ++ u'))) ++
          ('{' :: [','].intercalate (members.map Written.padded ++ tail) ++ ['}']))) =
          (colons ++ (v ++ (path ++ (u ++ (colons ++ u'))))) ++
            ('{' :: insideOf members tail ++ ['}']) := by
        simp only [insideOf, List.append_assoc]
      rw [htext] at htight ⊢
      refine leaves_group hblank hmembers htail hexpand hw hw' htight hplain hx
        fun leaf text hleaf => ?_
      rw [if_neg hne]
      refine ⟨v, path ++ (u ++ (colons ++ text)), hv, hpath.append hu hleaf, ?_⟩
      simp only [List.append_assoc, if_true]

/-- **The expansion ends on every text, and lists the leaves of a use tree.** -/
theorem expand_useTree :
    (∀ fuel expression, expression.length < fuel →
        expandWithFuel fuel expression = some (expandRustImportExpression expression)) ∧
      ∀ absolute tree text, ExpressionText absolute tree text →
        List.Forall₂ (LeafText absolute) tree.leaves (expandRustImportExpression text) ∧
          (expandRustImportExpression text).map withoutWhitespace =
            tree.leaves.map (pathOf absolute) := by
  refine ⟨fun fuel expression h => expandWithFuel_eq h, fun absolute tree text h => ?_⟩
  have hleaves : List.Forall₂ (LeafText absolute) tree.leaves (expandRustImportExpression text) := by
    cases h with
    | relative hw hw' h =>
      exact (expand_treeText h _ _ hw hw').imp fun leaf text hleaf =>
        ⟨[], text, blank_nil, hleaf, rfl⟩
    | absolute hw hw' hv hgroup h => exact leaves_absolute hgroup h hw hw' hv
  refine ⟨hleaves, ?_⟩
  have hequal := (List.forall₂_map_left_iff.mpr (List.forall₂_map_right_iff.mpr
    (hleaves.imp fun leaf text hleaf => hleaf.withoutWhitespace.symm)) :
      List.Forall₂ Eq (tree.leaves.map (pathOf absolute))
        ((expandRustImportExpression text).map withoutWhitespace))
  exact (List.forall₂_eq_eq_eq ▸ hequal).symm

/-! ## `self`, and whitespace before an alias -/

def nameA : Segment := ⟨['a'], by decide, by decide, by decide⟩

def nameB : Segment := ⟨['b'], by decide, by decide, by decide⟩

def selfSegment : Segment := ⟨['s', 'e', 'l', 'f'], by decide, by decide, by decide⟩

/-- `a::{b as a, self}`. -/
theorem aliasedGroup_expanded :
    ExpressionText false (.group [nameA] [.path [nameB] (some nameA), .path [selfSegment] none])
        "a::\x7bb as a, self\x7d".toList ∧
      (expandRustImportExpression "a::\x7bb as a, self\x7d".toList).map withoutWhitespace =
        ["a::b".toList, "a::self".toList] := by
  have htree : TreeText (.group [nameA] [.path [nameB] (some nameA), .path [selfSegment] none])
      ['a', ':', ':', '{', 'b', ' ', 'a', 's', ' ', 'a', ',', ' ', 's', 'e', 'l', 'f', '}'] := by
    refine TreeText.group (LeadText.path (PathText.single nameA) blank_nil blank_nil)
      [⟨[], .path [nameB] (some nameA), ['b', ' ', 'a', 's', ' ', 'a'], []⟩,
        ⟨[' '], .path [selfSegment] none, selfSegment.text, []⟩] [] ?_ ?_ ⟨by decide, nofun⟩
    · intro m hm
      rcases List.mem_cons.mp hm with rfl | hm
      · exact ⟨blank_nil, blank_nil⟩
      · obtain rfl := List.mem_singleton.mp hm
        exact ⟨by unfold Blank; decide, blank_nil⟩
    · intro m hm
      rcases List.mem_cons.mp hm with rfl | hm
      · exact TreeText.renamed (PathText.single nameB) blank_nil blank_nil nameA
      · obtain rfl := List.mem_singleton.mp hm
        exact TreeText.path (PathText.single selfSegment)
  have htext : "a::\x7bb as a, self\x7d".toList =
      [] ++ ['a', ':', ':', '{', 'b', ' ', 'a', 's', ' ', 'a', ',', ' ', 's', 'e', 'l', 'f', '}'] ++
        [] := by decide
  have hall : ExpressionText false
      (.group [nameA] [.path [nameB] (some nameA), .path [selfSegment] none])
      "a::\x7bb as a, self\x7d".toList := htext ▸ .relative blank_nil blank_nil htree
  exact ⟨hall, (expand_useTree.2 _ _ _ hall).2.trans (by decide)⟩

/-- **`self` and a tab.**  `self` is not its prefix, and an alias after a tab stays. -/
theorem selfLeaf_and_tab :
    TreeText (.group [nameA] [.path [selfSegment] none])
        ['a', ':', ':', '{', 's', 'e', 'l', 'f', '}'] ∧
      expandRustImportExpression ['a', ':', ':', '{', 's', 'e', 'l', 'f', '}'] ≠ [['a']] ∧
      expandRustImportExpression ['a', '\t', 'a', 's', ' ', 'b'] ≠ [['a']] := by
  refine ⟨TreeText.group (LeadText.path (PathText.single nameA) blank_nil blank_nil)
    [⟨[], .path [selfSegment] none, selfSegment.text, []⟩] [] ?_ ?_ ⟨by decide, nofun⟩,
    by decide, by decide⟩
  · intro m hm
    obtain rfl := List.mem_singleton.mp hm
    exact ⟨blank_nil, blank_nil⟩
  · intro m hm
    obtain rfl := List.mem_singleton.mp hm
    exact TreeText.path (PathText.single selfSegment)

end LanguageAdapter
end Bitloops
