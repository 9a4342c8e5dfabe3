import Bitloops.DevqlGraphql.Document
import Bitloops.Foundation.GraphqlLexer

/-!
# The tokens of a printed document

A document whose names are names and whose literals are literals lexes line by line; its field
structure is then that of the tree, whatever the arguments are.
-/

namespace Bitloops
namespace DevqlGraphql

open GraphqlLexer

/-! ## Literals -/

def GraphqlLiteral.IsOneLiteral (literal : GraphqlLiteral) : Prop :=
  IsLiteral literal.render.toList

def GraphqlValue.fields : GraphqlValue → List (String × GraphqlLiteral)
  | object fields => fields
  | _ => []

/-- The value is one literal, and so is each field of an input object. -/
def GraphqlValue.IsOneLiteral (value : GraphqlValue) : Prop :=
  IsLiteral value.render.toList ∧ ∀ f ∈ value.fields, f.2.IsOneLiteral

def GraphqlValue.literals : GraphqlValue → List GraphqlLiteral
  | literal value => [value]
  | list items => items.map .quoted
  | object fields => fields.map (·.2)

theorem isOneLiteral_quoted (text : String) : (GraphqlLiteral.quoted text).IsOneLiteral := by
  rw [GraphqlLiteral.IsOneLiteral, GraphqlLiteral.render, quoteGraphqlString, String.toList_ofList]
  exact isLiteral_encodeChars text.toList

theorem isOneLiteral_nat (n : ℕ) : (GraphqlLiteral.raw n.repr).IsOneLiteral := by
  rw [GraphqlLiteral.IsOneLiteral, GraphqlLiteral.render, Nat.toList_repr]
  exact isLiteral_integer false n

/-- The digits of an integer after its sign. -/
theorem toList_toString_int (n : ℤ) :
    (toString n).toList = signChars (decide (n < 0)) ++ Nat.toDigits 10 n.natAbs := by
  rw [Int.toString_eq_repr, Int.repr_eq_if]
  by_cases hn : 0 ≤ n
  · rw [if_pos hn, Nat.toList_repr, decide_eq_false (by omega), signChars, if_neg (by decide),
      List.nil_append]
    congr 1
    omega
  · rw [if_neg hn, String.toList_append, Nat.toList_repr, decide_eq_true (by omega), signChars,
      if_pos rfl]
    congr 2
    omega

theorem isLiteral_int (n : ℤ) : IsLiteral (toString n).toList := by
  rw [toList_toString_int]
  exact isLiteral_integer _ _

theorem isOneLiteral_int (n : ℤ) : (GraphqlLiteral.raw (toString n)).IsOneLiteral :=
  isLiteral_int n

/-- The lines of a filter are two integers in an object. -/
theorem isOneLiteral_lines (a b : ℤ) : (GraphqlLiteral.lines a b).IsOneLiteral := by
  have h : IsLiteral ('\x7b' :: (' ' :: ([',', ' '].intercalate
      ([("start".toList, (toString a).toList), ("end".toList, (toString b).toList)].map
        fieldText) ++ [' ']) ++ ['\x7d'])) :=
    isLiteral_object fun f hf => by
      obtain rfl | hf := List.mem_cons.1 hf
      · exact ⟨(by decide : IsName "start".toList), isLiteral_int a⟩
      · rw [List.mem_singleton.1 hf]
        exact ⟨(by decide : IsName "end".toList), isLiteral_int b⟩
  simpa [GraphqlLiteral.IsOneLiteral, GraphqlLiteral.render, fieldText] using h

/-! ## Values -/

/-- A value whose literals are literals is one literal. -/
theorem GraphqlValue.isOneLiteral_iff {value : GraphqlValue}
    (hnames : ∀ f ∈ value.fields, IsName f.1.toList) :
    value.IsOneLiteral ↔ ∀ literal ∈ value.literals, literal.IsOneLiteral := by
  cases value with
  | literal l => simp [IsOneLiteral, fields, literals, render, GraphqlLiteral.IsOneLiteral]
  | list items =>
    refine ⟨fun _ l hl => ?_, fun _ => ⟨?_, fun f hf => by cases hf⟩⟩
    · obtain ⟨item, -, rfl⟩ := List.mem_map.1 hl
      exact isOneLiteral_quoted item
    · have h : IsLiteral ('[' :: ([',', ' '].intercalate
          ((items.map quoteGraphqlString).map String.toList) ++ [']'])) :=
        isLiteral_list fun text htext => by
          obtain ⟨q, hq, rfl⟩ := List.mem_map.1 htext
          obtain ⟨item, -, rfl⟩ := List.mem_map.1 hq
          exact isOneLiteral_quoted item
      simpa [render] using h
  | object fields =>
    have hliterals : (∀ f ∈ fields, f.2.IsOneLiteral) ↔
        ∀ literal ∈ fields.map (·.2), literal.IsOneLiteral := by
      rw [List.forall_mem_map]
    refine ⟨fun h => hliterals.1 h.2, fun h => ⟨?_, hliterals.2 h⟩⟩
    have hobject : IsLiteral ('\x7b' :: (' ' :: ([',', ' '].intercalate
        ((fields.map fun f => (f.1.toList, f.2.render.toList)).map fieldText) ++ [' ']) ++
          ['\x7d'])) :=
      isLiteral_object fun g hg => by
        obtain ⟨f, hf, rfl⟩ := List.mem_map.1 hg
        exact ⟨hnames f hf, hliterals.2 h f hf⟩
    simpa [render, fieldText, Function.comp_def] using hobject

/-! ## Trees -/

def GraphqlArgument.names (arg : GraphqlArgument) : List String :=
  arg.name :: arg.value.fields.map (·.1)

mutual

/-- The names of fields, arguments and fields of input objects. -/
def GraphqlSelection.names : GraphqlSelection → List String
  | .scalar name => [name]
  | .field name args selectionSet =>
    name :: (args.flatMap GraphqlArgument.names ++ selectionNames selectionSet)

def selectionNames : List GraphqlSelection → List String
  | [] => []
  | selection :: rest => selection.names ++ selectionNames rest

end

mutual

def GraphqlSelection.arguments : GraphqlSelection → List GraphqlArgument
  | .scalar _ => []
  | .field _ args selectionSet => args ++ selectionArguments selectionSet

def selectionArguments : List GraphqlSelection → List GraphqlArgument
  | [] => []
  | selection :: rest => selection.arguments ++ selectionArguments rest

end

mutual

/-- The names and brackets of the fields. -/
def GraphqlSelection.skeleton : GraphqlSelection → List Token
  | .scalar name => [.name name.toList]
  | .field name _ selectionSet =>
    .name name.toList ::
      (if selectionSet.isEmpty then []
      else bracketed '\x7b' '\x7d' (selectionSkeleton selectionSet))

def selectionSkeleton : List GraphqlSelection → List Token
  | [] => []
  | selection :: rest => selection.skeleton ++ selectionSkeleton rest

end

def GraphqlSelection.WellNamed (selection : GraphqlSelection) : Prop :=
  ∀ name ∈ selection.names, IsName name.toList

def GraphqlSelection.LiteralArguments (selection : GraphqlSelection) : Prop :=
  ∀ arg ∈ selection.arguments, arg.value.IsOneLiteral

def leftBrace : Token := .punctuator '\x7b'
def rightBrace : Token := .punctuator '\x7d'

/-! ## Lines -/

/-- Lines that lex one after the other to tokens with the structure. -/
def Prints (lines : List String) (structure' : List Token) : Prop :=
  ∃ pieces : List (List Char × List Token),
    lines.map String.toList = pieces.map (·.1) ∧ (∀ p ∈ pieces, Lexes p.1 p.2) ∧
      ∀ rest, dropArguments 0 ((pieces.map (·.2)).flatten ++ rest) =
        structure' ++ dropArguments 0 rest

theorem prints_nil : Prints [] [] := ⟨[], rfl, fun _ h => (nomatch h), fun _ => rfl⟩

theorem Prints.append {a b : List String} {s t : List Token} (ha : Prints a s) (hb : Prints b t) :
    Prints (a ++ b) (s ++ t) := by
  obtain ⟨pieces, hlines, hlexes, hdrop⟩ := ha
  obtain ⟨pieces', hlines', hlexes', hdrop'⟩ := hb
  refine ⟨pieces ++ pieces', by rw [List.map_append, List.map_append, hlines, hlines'],
    List.forall_mem_append.2 ⟨hlexes, hlexes'⟩, fun rest => ?_⟩
  rw [List.map_append, List.flatten_append, List.append_assoc, hdrop, hdrop', List.append_assoc]

/-- One line. -/
theorem prints_line {line : String} {tokens structure' : List Token}
    (hlexes : Lexes line.toList tokens)
    (hdrop : ∀ rest, dropArguments 0 (tokens ++ rest) = structure' ++ dropArguments 0 rest) :
    Prints [line] structure' := by
  refine ⟨[(line.toList, tokens)], rfl, fun p hp => ?_, fun rest => ?_⟩
  · rw [List.mem_singleton.1 hp]
    exact hlexes
  · rw [List.map_singleton, List.flatten_singleton, hdrop]

theorem complete_indent (depth : ℕ) : Complete (indent depth).toList [] := by
  rw [indent, String.toList_ofList]
  induction 2 * depth with
  | zero => exact complete_nil
  | succ n ih =>
    rw [List.replicate_succ]
    exact complete_space.append ih

def argumentText (arg : GraphqlArgument) : List Char :=
  arg.name.toList ++ ':' :: ' ' :: arg.value.render.toList

theorem toList_renderArgs {args : List GraphqlArgument} (hne : args ≠ []) :
    (renderArgs args).toList =
      '(' :: ([',', ' '].intercalate (args.map argumentText) ++ [')']) := by
  rw [renderArgs, if_neg (by simpa using hne)]
  simp [Function.comp_def]
  rfl

theorem name_ne_paren (name : List Char) :
    Token.name name ≠ openParen ∧ Token.name name ≠ closeParen := by
  simp [openParen, closeParen]

theorem noParens_name (name : List Char) : NoParens [.name name] :=
  noParens_nil.cons (name_ne_paren name)

/-- The arguments of a field: after the name nothing of them stays. -/
theorem lexes_renderArgs {name : String} {args : List GraphqlArgument} (hname : IsName name.toList)
    (hargs : ∀ arg ∈ args, IsName arg.name.toList ∧ IsLiteral arg.value.render.toList) :
    ∃ tokens, Lexes (name ++ renderArgs args).toList tokens ∧
      ∀ rest, dropArguments 0 (tokens ++ rest) = .name name.toList :: dropArguments 0 rest := by
  by_cases hne : args = []
  · refine ⟨[.name name.toList], ?_, fun rest => dropArguments_append (noParens_name _) rest⟩
    have hempty : renderArgs [] = "" := rfl
    rw [hne, hempty, String.append_empty]
    exact lexes_name hname
  · have hexists : ∀ arg ∈ args, ∃ tokens, Lexes (argumentText arg) tokens ∧ NoParens tokens := by
      intro arg harg
      obtain ⟨hargName, tokens, hlexes, hvalue⟩ := hargs arg harg
      exact ⟨_, lexes_labelled hargName hlexes,
        (hvalue.noParens.cons (by decide)).cons (name_ne_paren _)⟩
    obtain ⟨pieces, rfl, hpieces⟩ := exists_pieces hexists
    have hinner : Lexes
        ([',', ' '].intercalate ((pieces.map fun p => (argumentText p.1, p.2)).map (·.1)))
        ((pieces.map fun p => (argumentText p.1, p.2)).map (·.2)).flatten :=
      lexes_intercalate (by decide) complete_space fun q hq => by
        obtain ⟨p, hp, rfl⟩ := List.mem_map.1 hq
        exact (hpieces p hp).1
    have hnoParens : NoParens
        ((pieces.map fun p => (argumentText p.1, p.2)).map (·.2)).flatten := by
      refine NoParens.flatten fun tokens htokens => ?_
      rw [List.map_map] at htokens
      obtain ⟨p, hp, rfl⟩ := List.mem_map.1 htokens
      exact (hpieces p hp).2
    have hline := (lexes_name hname).cons_append (show '(' ∈ delimiters by decide)
      (hinner.complete (show ')' ∈ delimiters by decide)).lexes
    have htext : ([',', ' '].intercalate
        ((pieces.map fun p => (argumentText p.1, p.2)).map (·.1))) =
        [',', ' '].intercalate ((pieces.map (·.1)).map argumentText) := by
      rw [List.map_map, List.map_map]
      rfl
    rw [htext, ← toList_renderArgs hne, ← String.toList_append] at hline
    refine ⟨_, hline, fun rest => ?_⟩
    have hopen : delimiterTokens '(' = [openParen] := by decide
    have hclose : delimiterTokens ')' = [closeParen] := by decide
    rw [hopen, hclose, List.append_assoc, List.append_assoc, List.append_assoc,
      dropArguments_append (noParens_name _), List.singleton_append, List.singleton_append,
      List.singleton_append, dropArguments, if_pos rfl, dropArguments_arguments hnoParens]

/-! ## Documents -/

theorem names_of_field {name : String} {args : List GraphqlArgument}
    {selectionSet : List GraphqlSelection}
    (h : (GraphqlSelection.field name args selectionSet).WellNamed) :
    IsName name.toList ∧ (∀ arg ∈ args, ∀ n ∈ arg.names, IsName n.toList) ∧
      ∀ n ∈ selectionNames selectionSet, IsName n.toList := by
  refine ⟨h name List.mem_cons_self, fun arg harg n hn => ?_, fun n hn => ?_⟩
  · exact h n (List.mem_cons_of_mem _ (List.mem_append_left _ (List.mem_flatMap.2 ⟨arg, harg, hn⟩)))
  · exact h n (List.mem_cons_of_mem _ (List.mem_append_right _ hn))

/-- The line that begins a field, before what follows the arguments. -/
theorem lexes_fieldLine (depth : ℕ) {name : String} {args : List GraphqlArgument}
    (hname : IsName name.toList) (hnames : ∀ arg ∈ args, ∀ n ∈ arg.names, IsName n.toList)
    (hargs : ∀ arg ∈ args, arg.value.IsOneLiteral) :
    ∃ tokens, Lexes (indent depth ++ name ++ renderArgs args).toList tokens ∧
      ∀ rest, dropArguments 0 (tokens ++ rest) = .name name.toList :: dropArguments 0 rest := by
  obtain ⟨tokens, hlexes, hdrop⟩ := lexes_renderArgs hname fun arg harg =>
    ⟨hnames arg harg arg.name List.mem_cons_self, (hargs arg harg).1⟩
  refine ⟨tokens, ?_, hdrop⟩
  have hline := (complete_indent depth).lexes_append hlexes
  rwa [List.nil_append, ← String.toList_append, ← String.append_assoc] at hline

mutual

/-- The lines of a selection have its structure. -/
theorem prints_renderSelection (depth : ℕ) (selection : GraphqlSelection)
    (hnames : selection.WellNamed) (hargs : selection.LiteralArguments) :
    Prints (renderSelection depth selection) selection.skeleton := by
  cases selection with
  | scalar name =>
    have hname : IsName name.toList := hnames name List.mem_cons_self
    have hline := (complete_indent depth).lexes_append (lexes_name hname)
    rw [List.nil_append, ← String.toList_append] at hline
    rw [renderSelection]
    exact prints_line hline fun rest => dropArguments_append (noParens_name _) rest
  | field name args selectionSet =>
    obtain ⟨hname, hargNames, hselection⟩ := names_of_field hnames
    obtain ⟨tokens, hline, hdrop⟩ := lexes_fieldLine depth hname hargNames
      fun arg harg => hargs arg (List.mem_append_left _ harg)
    have hinner := prints_renderSelections (depth + 1) selectionSet hselection
      fun arg harg => hargs arg (List.mem_append_right _ harg)
    rw [renderSelection, GraphqlSelection.skeleton]
    by_cases hempty : selectionSet.isEmpty = true
    · rw [if_pos hempty, if_pos hempty]
      exact prints_line hline hdrop
    · rw [if_neg hempty, if_neg hempty]
      have hfirst : Prints [indent depth ++ name ++ renderArgs args ++ " \x7b"]
          [.name name.toList, leftBrace] := by
        have hbrace := hline.cons_append (show ' ' ∈ delimiters by decide)
          (complete_delimiter (show '\x7b' ∈ delimiters by decide)).lexes
        refine prints_line (by rwa [String.toList_append]) fun rest => ?_
        rw [List.append_assoc, List.append_assoc, hdrop]
        rfl
      have hlast : Prints [indent depth ++ "\x7d"] [rightBrace] := by
        have hbrace := (complete_indent depth).append
          (complete_delimiter (show '\x7d' ∈ delimiters by decide))
        exact prints_line (by rw [String.toList_append]; exact hbrace.lexes) fun rest => rfl
      exact (hfirst.append hinner).append hlast

theorem prints_renderSelections (depth : ℕ) (selectionSet : List GraphqlSelection)
    (hnames : ∀ n ∈ selectionNames selectionSet, IsName n.toList)
    (hargs : ∀ arg ∈ selectionArguments selectionSet, arg.value.IsOneLiteral) :
    Prints (selectionSet.flatMap (renderSelection depth)) (selectionSkeleton selectionSet) := by
  cases selectionSet with
  | nil => exact prints_nil
  | cons selection rest =>
    rw [List.flatMap_cons]
    exact (prints_renderSelection depth selection (fun n hn => hnames n (List.mem_append_left _ hn))
      fun arg harg => hargs arg (List.mem_append_left _ harg)).append
      (prints_renderSelections depth rest (fun n hn => hnames n (List.mem_append_right _ hn))
        fun arg harg => hargs arg (List.mem_append_right _ harg))

end

/-- The field structure of a document is that of its tree. -/
theorem fieldStructure_buildDocument {document : GraphqlSelection} (hnames : document.WellNamed)
    (hargs : document.LiteralArguments) :
    fieldStructure (buildDocument [document]).toList =
      some (.name "query".toList :: bracketed '\x7b' '\x7d' document.skeleton) := by
  have hquery : Prints ["query \x7b"] [.name "query".toList, leftBrace] :=
    prints_line (show Lexes "query \x7b".toList [.name "query".toList, leftBrace] from
      ⟨[.name "query".toList, leftBrace], .start, [], by decide, rfl, rfl⟩) fun rest => rfl
  have hend : Prints ["\x7d"] [rightBrace] :=
    prints_line (complete_delimiter (show '\x7d' ∈ delimiters by decide)).lexes fun rest => rfl
  obtain ⟨pieces, hlines, hlexes, hdrop⟩ :=
    (hquery.append (prints_renderSelection 1 document hnames hargs)).append hend
  have htext : (buildDocument [document]).toList =
      ['\n'].intercalate (pieces.map (·.1)) := by
    rw [← hlines, buildDocument, String.toList_intercalate, List.flatMap_singleton]
    rfl
  have hlex := (lexes_intercalate (show '\n' ∈ ignoredChars by decide) complete_nil hlexes).lex_eq
  have hstructure := hdrop []
  rw [List.append_nil] at hstructure
  rw [fieldStructure, htext, hlex, Option.map_some, hstructure]
  simp [bracketed, leftBrace, rightBrace, dropArguments]

/-- The names of the first ten repositories. -/
def repositoryNames : GraphqlSelection :=
  .field "repositories" (firstArg (some 10)) [.scalar "name"]

theorem fieldStructure_repositoryNames :
    fieldStructure (buildDocument [repositoryNames]).toList =
      some (.name "query".toList :: bracketed '\x7b' '\x7d' repositoryNames.skeleton) := by
  have hnames : repositoryNames.WellNamed := by
    unfold GraphqlSelection.WellNamed
    decide
  have hargs : repositoryNames.LiteralArguments := by
    intro arg harg
    obtain rfl := List.mem_singleton.mp harg
    refine (GraphqlValue.isOneLiteral_iff fun f hf => absurd hf List.not_mem_nil).mpr ?_
    intro literal hliteral
    obtain rfl := List.mem_singleton.mp hliteral
    exact isOneLiteral_nat 10
  exact fieldStructure_buildDocument hnames hargs

end DevqlGraphql
end Bitloops
