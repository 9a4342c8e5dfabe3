import Bitloops.Daemon.SyncMode
import Bitloops.Foundation.Brackets
import Bitloops.Foundation.Results

/-!
# Rust import expressions

A `use` declaration names several items at once.  Its text, as it stands in the file, is expanded
into one path for each item: the text before the first brace is put before every part between the
braces, each of which is expanded in its turn, and what is renamed loses its alias.

Texts are lists of characters.  The recursion of the source is over texts, so it is given fuel
here.
-/

namespace Bitloops
namespace LanguageAdapter

abbrev Text := List Char

def isWhitespace (c : Char) : Bool := Daemon.isWhitespace c

def trim (text : Text) : Text :=
  ((text.dropWhile isWhitespace).reverse.dropWhile isWhitespace).reverse

/-- `trim_start_matches("::")`. -/
def trimStartColons : Text → Text
  | ':' :: ':' :: text => trimStartColons text
  | text => text

/-- `trim_end_matches("::")`. -/
def trimEndColons (text : Text) : Text := (trimStartColons text.reverse).reverse

/-- `split(" as ").next()`. -/
def beforeAs : Text → Text
  | [] => []
  | c :: text => if [' ', 'a', 's', ' '].isPrefixOf (c :: text) then [] else c :: beforeAs text

def stripRustImportAlias (expression : Text) : Text := trim (beforeAs expression)

def findTopLevelChar (target : Char) (braceDepth : ℤ) (idx : ℕ) : Text → Option ℕ
  | [] => none
  | ch :: value =>
    if ch = '{' then
      if ch = target ∧ braceDepth = 0 then some idx
      else findTopLevelChar target (braceDepth + 1) (idx + 1) value
    else if ch = '}' then findTopLevelChar target (braceDepth - 1) (idx + 1) value
    else if ch = target ∧ braceDepth = 0 then some idx
    else findTopLevelChar target braceDepth (idx + 1) value

def findMatchingBrace (value : Text) (openIdx : ℕ) : Option ℕ :=
  Brackets.closeAt '{' '}' 0 openIdx (value.drop openIdx)

def splitTopLevelCommas (value : Text) : List Text :=
  ((Brackets.splitTop '{' '}' ',' 0 [] value).map trim).filter (· ≠ [])

/-- A nested path between what stands before and after the braces. -/
def combine (before suffix nested : Text) : Option Text :=
  let nested := stripRustImportAlias nested
  if nested = [] then none
  else
    let combined := if before = [] then nested else before ++ [':', ':'] ++ nested
    some (if suffix = [] then combined else combined ++ [':', ':'] ++ suffix)

/-- `expand_rust_import_expression`; `none` when the fuel has run out. -/
def expandWithFuel : ℕ → Text → Option (List Text)
  | 0, _ => none
  | fuel + 1, expression =>
    let expression := trim expression
    if expression = [] then some []
    else
      match findTopLevelChar '{' 0 0 expression with
      | none => some [stripRustImportAlias expression]
      | some openIdx =>
        match findMatchingBrace expression openIdx with
        | none => some [stripRustImportAlias expression]
        | some closeIdx =>
          let before := trimEndColons (trim (expression.take openIdx))
          let inside := (expression.drop (openIdx + 1)).take (closeIdx - (openIdx + 1))
          let suffix := trimStartColons (trim (expression.drop (closeIdx + 1)))
          ((splitTopLevelCommas inside).mapM (expandWithFuel fuel)).map fun expanded =>
            expanded.flatten.filterMap (combine before suffix)

def expandRustImportExpression (expression : Text) : List Text :=
  (expandWithFuel (expression.length + 1) expression).getD []

/-! ## The expansion ends -/

theorem length_trim_le (text : Text) : (trim text).length ≤ text.length := by
  unfold trim
  rw [List.length_reverse]
  refine (List.dropWhile_suffix _).length_le.trans ?_
  rw [List.length_reverse]
  exact (List.dropWhile_suffix _).length_le

theorem lt_length_of_findTopLevelChar {target : Char} {depth : ℤ} {start idx : ℕ} {value : Text}
    (h : findTopLevelChar target depth start value = some idx) : idx < start + value.length := by
  induction value generalizing depth start with
  | nil => exact nomatch h
  | cons ch value ih =>
    rw [findTopLevelChar] at h
    rw [List.length_cons]
    split_ifs at h
    · have hidx := Option.some.inj h
      omega
    · have hidx := ih h
      omega
    · have hidx := ih h
      omega
    · have hidx := Option.some.inj h
      omega
    · have hidx := ih h
      omega

/-- A piece is no longer than the text. -/
theorem length_le_of_mem_splitTop {depth : ℤ} {piece value part : Text}
    (h : part ∈ Brackets.splitTop '{' '}' ',' depth piece value) :
    part.length ≤ piece.length + value.length := by
  induction value generalizing depth piece with
  | nil =>
    rw [List.mem_singleton.mp h]
    exact Nat.le_add_right _ _
  | cons ch value ih =>
    rw [Brackets.splitTop] at h
    rw [List.length_cons]
    split_ifs at h
    · have hle := ih h
      rw [List.length_append, List.length_singleton] at hle
      omega
    · have hle := ih h
      rw [List.length_append, List.length_singleton] at hle
      omega
    · rcases List.mem_cons.mp h with rfl | h
      · omega
      · have hle := ih h
        rw [List.length_nil] at hle
        omega
    · have hle := ih h
      rw [List.length_append, List.length_singleton] at hle
      omega

theorem length_le_of_mem_splitTopLevelCommas {value part : Text}
    (h : part ∈ splitTopLevelCommas value) : part.length ≤ value.length := by
  obtain ⟨hmem, -⟩ := List.mem_filter.mp h
  obtain ⟨piece, hpiece, rfl⟩ := List.mem_map.mp hmem
  have hle := length_le_of_mem_splitTop hpiece
  rw [List.length_nil, Nat.zero_add] at hle
  exact (length_trim_le piece).trans hle

/-- The parts between the braces are shorter than the expression. -/
theorem length_lt_of_mem_parts {expression part : Text} {openIdx count : ℕ}
    (hopen : findTopLevelChar '{' 0 0 expression = some openIdx)
    (hpart : part ∈ splitTopLevelCommas ((expression.drop (openIdx + 1)).take count)) :
    part.length < expression.length := by
  have hlt := lt_length_of_findTopLevelChar hopen
  have hle := length_le_of_mem_splitTopLevelCommas hpart
  rw [List.length_take, List.length_drop] at hle
  omega

/-- More fuel does not change a result. -/
theorem expandWithFuel_mono {fuel fuel' : ℕ} {expression : Text} {expanded : List Text}
    (h : expandWithFuel fuel expression = some expanded) (hle : fuel ≤ fuel') :
    expandWithFuel fuel' expression = some expanded := by
  induction fuel generalizing fuel' expression expanded with
  | zero => exact nomatch h
  | succ fuel ih =>
    obtain ⟨fuel', rfl⟩ : ∃ more, fuel' = more + 1 := ⟨fuel' - 1, by omega⟩
    rw [expandWithFuel] at h ⊢
    dsimp only at h ⊢
    split_ifs at h ⊢ with hempty
    · exact h
    · cases hopen : findTopLevelChar '{' 0 0 (trim expression) with
      | none => rwa [hopen] at h
      | some openIdx =>
        rw [hopen] at h
        dsimp only at h ⊢
        cases hclose : findMatchingBrace (trim expression) openIdx with
        | none => rwa [hclose] at h
        | some closeIdx =>
          rw [hclose] at h
          dsimp only at h ⊢
          obtain ⟨nested, hnested, hcombined⟩ := Option.map_eq_some_iff.mp h
          refine Option.map_eq_some_iff.mpr ⟨nested, Results.mapM_eq_some.mpr ?_, hcombined⟩
          exact (Results.mapM_eq_some.mp hnested).imp fun part expanded hpart =>
            ih hpart (by omega)

/-- Fuel beyond the length of the expression is enough. -/
theorem exists_expandWithFuel {fuel : ℕ} {expression : Text} (h : expression.length < fuel) :
    ∃ expanded, expandWithFuel fuel expression = some expanded := by
  induction fuel generalizing expression with
  | zero => exact absurd h (Nat.not_lt_zero _)
  | succ fuel ih =>
    rw [expandWithFuel]
    dsimp only
    split_ifs with hempty
    · exact ⟨_, rfl⟩
    · cases hopen : findTopLevelChar '{' 0 0 (trim expression) with
      | none => exact ⟨_, rfl⟩
      | some openIdx =>
        dsimp only
        cases findMatchingBrace (trim expression) openIdx with
        | none => exact ⟨_, rfl⟩
        | some closeIdx =>
          have htrim := length_trim_le expression
          obtain ⟨nested, hnested⟩ := Results.exists_forall₂ fun part hpart =>
            ih (lt_of_lt_of_le (length_lt_of_mem_parts hopen hpart) (by omega))
          exact ⟨_, Option.map_eq_some_iff.mpr ⟨nested, Results.mapM_eq_some.mpr hnested, rfl⟩⟩

/-- **The expansion ends**, whatever the expression is. -/
theorem expandWithFuel_eq {fuel : ℕ} {expression : Text} (h : expression.length < fuel) :
    expandWithFuel fuel expression = some (expandRustImportExpression expression) := by
  obtain ⟨expanded, hexpanded⟩ := exists_expandWithFuel (Nat.lt_succ_self expression.length)
  have hresult : expandRustImportExpression expression = expanded := by
    rw [expandRustImportExpression, hexpanded, Option.getD_some]
  rw [hresult]
  exact expandWithFuel_mono hexpanded h

end LanguageAdapter
end Bitloops
