import Bitloops.DevqlGraphql.Pipeline
import Bitloops.Foundation.Results
import Mathlib

/-!
# The texts of arguments

* `parseNamedArgs_render`: rendered arguments are read as the table of their texts.
* `parseNamedArgs_unclosed`: arguments of which the last one ends before its quote is closed are
  refused, whatever stands before them.
-/

namespace Bitloops
namespace DevqlGraphql

open LanguageAdapter (Text trim Blank Tight isWhitespace trim_tight trim_padded trim_blank)

variable {text front w rest current : Text} {c q : Char}

/-! ## Characters -/

theorem isQuote_iff : isQuote c = true ↔ c = '\'' ∨ c = '"' := by
  rw [isQuote, Bool.or_eq_true, decide_eq_true_iff, decide_eq_true_iff]

theorem isWhitespace_of_isQuote (h : isQuote c = true) : isWhitespace c = false := by
  rcases isQuote_iff.mp h with rfl | rfl <;> decide

/-- The codes of the characters of a name. -/
theorem toNat_of_isNameChar (h : isNameChar c = true) :
    65 ≤ c.toNat ∧ c.toNat ≤ 90 ∨ 97 ≤ c.toNat ∧ c.toNat ≤ 122 ∨ 48 ≤ c.toNat ∧ c.toNat ≤ 57 ∨
      c.toNat = 95 := by
  rw [isNameChar, Bool.or_eq_true, decide_eq_true_iff] at h
  rcases h with h | rfl
  · simp only [Char.isAlphanum, Char.isAlpha, Char.isUpper, Char.isLower, Char.isDigit,
      Bool.or_eq_true, Bool.and_eq_true, decide_eq_true_eq, ge_iff_le, UInt32.le_iff_toNat_le] at h
    change ((65 ≤ c.toNat ∧ c.toNat ≤ 90) ∨ (97 ≤ c.toNat ∧ c.toNat ≤ 122)) ∨
      (48 ≤ c.toNat ∧ c.toNat ≤ 57) at h
    omega
  · decide

theorem isWhitespace_of_isNameChar (h : isNameChar c = true) : isWhitespace c = false := by
  have hcode := toNat_of_isNameChar h
  simp only [isWhitespace, Daemon.isWhitespace, Bool.or_eq_false_iff, Bool.and_eq_false_iff,
    decide_eq_false_iff_not]
  omega

/-- A text of name characters does not have the others in it. -/
theorem notMem_of_nameChars (h : ∀ c ∈ text, isNameChar c = true) (hc : isNameChar c = false) :
    c ∉ text := by
  intro hmem
  rw [h c hmem] at hc
  exact Bool.noConfusion hc

/-- A text of white space does not have the others in it. -/
theorem Blank.notMem (hw : Blank w) (hc : isWhitespace c = false) : c ∉ w := by
  intro hmem
  rw [hw c hmem] at hc
  exact Bool.noConfusion hc

/-! ## Trimming -/

theorem exists_blank_end (text : Text) :
    ∃ kept w, text = kept ++ w ∧ Blank w ∧ ∀ c ∈ kept.getLast?, isWhitespace c = false := by
  induction text using List.reverseRecOn with
  | nil => exact ⟨[], [], rfl, LanguageAdapter.blank_nil, fun _ h => nomatch h⟩
  | append_singleton text c ih =>
    cases hc : isWhitespace c with
    | true =>
      obtain ⟨kept, w, rfl, hw, hlast⟩ := ih
      refine ⟨kept, w ++ [c], List.append_assoc kept w [c], fun d hd => ?_, hlast⟩
      rcases List.mem_append.mp hd with hd | hd
      · exact hw d hd
      · rw [List.mem_singleton.mp hd, hc]
    | false =>
      refine ⟨text ++ [c], [], (List.append_nil _).symm, LanguageAdapter.blank_nil, fun d hd => ?_⟩
      rw [List.getLast?_concat, Option.mem_some_iff] at hd
      rw [← hd, hc]

/-- Only the end of what follows a character that is no white space is trimmed. -/
theorem trim_open (hw : Blank w) (h : Tight (front ++ [q])) (text : Text) :
    ∃ kept, kept <+: text ∧ trim (w ++ (front ++ q :: text)) = front ++ q :: kept := by
  obtain ⟨kept, w', rfl, hw', hlast⟩ := exists_blank_end text
  refine ⟨kept, List.prefix_append kept w', ?_⟩
  have htight : Tight (front ++ q :: kept) := by
    obtain ⟨⟨c, rest, hhead, hc⟩, hq⟩ := h
    refine ⟨⟨c, rest ++ kept, ?_, hc⟩, ?_⟩
    · rw [List.append_cons, hhead, List.cons_append]
    · rcases List.eq_nil_or_concat' kept with rfl | ⟨kept, d, rfl⟩
      · exact hq
      · refine ⟨front ++ q :: kept, d, by rw [List.append_assoc, List.cons_append], ?_⟩
        exact hlast d (List.getLast?_concat ..)
  have htrim := trim_padded hw hw' htight
  rwa [List.append_assoc, List.append_assoc, List.cons_append] at htrim

/-! ## Quoted values -/

theorem QuotedValue.tight (value : QuotedValue) : Tight value.render := by
  have hquote := isWhitespace_of_isQuote value.isQuote_quote
  exact ⟨⟨value.quote, value.text ++ [value.quote], rfl, hquote⟩,
    ⟨value.quote :: value.text, value.quote, rfl, hquote⟩⟩

theorem parseSingleQuotedOrDouble_render (value : QuotedValue) :
    parseSingleQuotedOrDouble value.render = .ok value.text := by
  have hlength : ¬value.render.length < 2 := by
    rw [QuotedValue.render, List.length_cons, List.length_append, List.length_singleton]
    omega
  have hlast : value.render.getLast? = some value.quote := by
    rw [QuotedValue.render, ← List.cons_append, List.getLast?_concat]
  have hinside : (value.render.drop 1).dropLast = value.text := List.dropLast_concat
  rw [parseSingleQuotedOrDouble, trim_tight value.tight, if_neg hlength, if_pos, hinside]
  rw [hlast]
  rcases isQuote_iff.mp value.isQuote_quote with h | h
  · exact Or.inr ⟨congrArg some h, congrArg some h⟩
  · exact Or.inl ⟨congrArg some h, congrArg some h⟩

/-- A quote that is not closed is no value. -/
theorem parseSingleQuotedOrDouble_unclosed (hq : isQuote q = true) (h : q ∉ text) :
    parseSingleQuotedOrDouble (q :: text) = .error (.expectedQuotedString (q :: text)) := by
  have htight : Tight ([] ++ [q]) :=
    LanguageAdapter.tight_of_forall (List.cons_ne_nil q []) fun c hc => by
      rw [List.mem_singleton.mp hc, isWhitespace_of_isQuote hq]
  obtain ⟨kept, hkept, htrim⟩ := trim_open LanguageAdapter.blank_nil htight text
  have hkeptq : q ∉ kept := fun hmem => h (hkept.subset hmem)
  simp only [List.nil_append] at htrim
  rw [parseSingleQuotedOrDouble, htrim]
  rcases List.eq_nil_or_concat' kept with rfl | ⟨kept, d, rfl⟩
  · exact if_pos (Nat.lt_succ_self 1)
  · have hne : d ≠ q := fun heq => hkeptq (heq ▸ List.mem_concat_self)
    have hlast : (q :: (kept ++ [d])).getLast? = some d := by
      rw [← List.cons_append, List.getLast?_concat]
    split_ifs with hlength hends
    · rfl
    · rw [List.head?_cons, hlast] at hends
      simp only [Option.some.injEq] at hends
      rcases hends with ⟨hq, hd⟩ | ⟨hq, hd⟩
      · exact absurd (hd.trans hq.symm) hne
      · exact absurd (hd.trans hq.symm) hne
    · rfl

/-! ## Pieces -/

theorem scanPieces_plain (h : ∀ c ∈ text, isQuote c = false ∧ c ≠ ',') :
    scanPieces none current (text ++ rest) = scanPieces none (current ++ text) rest := by
  induction text generalizing current with
  | nil => rw [List.nil_append, List.append_nil]
  | cons c text ih =>
    obtain ⟨hquote, hcomma⟩ := h c List.mem_cons_self
    rw [List.cons_append, scanPieces, hquote, if_neg Bool.false_ne_true,
      if_neg fun hc => hcomma hc.1, ih fun d hd => h d (List.mem_cons_of_mem c hd),
      List.append_assoc, List.singleton_append]

theorem scanPieces_quoted (h : q ∉ text) :
    scanPieces (some q) current (text ++ rest) = scanPieces (some q) (current ++ text) rest := by
  induction text generalizing current with
  | nil => rw [List.nil_append, List.append_nil]
  | cons c text ih =>
    have hne : ¬some q = some c := fun heq => h (Option.some.inj heq ▸ List.mem_cons_self)
    have hrest : scanPieces (some q) (current ++ [c]) (text ++ rest) =
        scanPieces (some q) (current ++ c :: text) rest := by
      rw [ih fun hmem => h (List.mem_cons_of_mem c hmem), List.append_assoc,
        List.singleton_append]
    cases hquote : isQuote c with
    | true =>
      rw [List.cons_append, scanPieces, if_pos hquote, if_neg hne,
        if_neg (Option.some_ne_none q), hrest]
    | false =>
      rw [List.cons_append, scanPieces, hquote, if_neg Bool.false_ne_true,
        if_neg fun hc => Option.some_ne_none q hc.2, hrest]

theorem scanPieces_open (hq : isQuote q = true) :
    scanPieces none current (q :: rest) = scanPieces (some q) (current ++ [q]) rest := by
  rw [scanPieces, if_pos hq, if_neg (Option.some_ne_none q).symm, if_pos rfl]

theorem scanPieces_close (hq : isQuote q = true) :
    scanPieces (some q) current (q :: rest) = scanPieces none (current ++ [q]) rest := by
  rw [scanPieces, if_pos hq, if_pos rfl]

/-- Up to the quote of a value there is nothing that ends a piece. -/
theorem scanPieces_key (hkey : ∀ c ∈ front, isNameChar c = true) (hq : isQuote q = true) :
    scanPieces none current (front ++ ':' :: q :: rest) =
      scanPieces (some q) (current ++ (front ++ ':' :: [q])) rest := by
  have hplain : ∀ c ∈ front ++ [':'], isQuote c = false ∧ c ≠ ',' := by
    intro c hc
    rcases List.mem_append.mp hc with hc | hc
    · constructor
      · refine Bool.eq_false_iff.mpr fun h => ?_
        rcases isQuote_iff.mp h with rfl | rfl
        · exact notMem_of_nameChars hkey (by decide) hc
        · exact notMem_of_nameChars hkey (by decide) hc
      · rintro rfl
        exact notMem_of_nameChars hkey (by decide) hc
    · rw [List.mem_singleton.mp hc]
      decide
  rw [List.append_cons, scanPieces_plain hplain, scanPieces_open hq]
  simp only [List.append_assoc, List.singleton_append, List.cons_append, List.nil_append]

theorem scanPieces_argument (arg : NamedArgument) :
    scanPieces none current (arg.render ++ rest) =
      scanPieces none (current ++ arg.render) rest := by
  have hquote := arg.value.isQuote_quote
  have htext : arg.render ++ rest = arg.key ++ ':' :: arg.value.quote ::
      (arg.value.text ++ arg.value.quote :: rest) := by
    simp only [NamedArgument.render, QuotedValue.render, List.append_assoc, List.cons_append,
      List.nil_append]
  rw [htext, scanPieces_key arg.keyChars hquote, scanPieces_quoted arg.value.quote_notMem,
    scanPieces_close hquote]
  simp only [NamedArgument.render, QuotedValue.render, List.append_assoc, List.cons_append,
    List.nil_append]

theorem scanPieces_unclosed (hkey : ∀ c ∈ front, isNameChar c = true) (hq : isQuote q = true)
    (h : q ∉ text) (hne : trim (current ++ (front ++ ':' :: q :: text)) ≠ []) :
    scanPieces none current (front ++ ':' :: q :: text) =
      [trim (current ++ (front ++ ':' :: q :: text))] := by
  have hquoted : scanPieces (some q) (current ++ (front ++ ':' :: [q])) (text ++ []) =
      scanPieces (some q) (current ++ (front ++ ':' :: [q]) ++ text) [] := scanPieces_quoted h
  rw [List.append_nil] at hquoted
  have hall : current ++ (front ++ ':' :: [q]) ++ text =
      current ++ (front ++ ':' :: q :: text) := by
    simp only [List.append_assoc, List.cons_append, List.nil_append]
  rw [scanPieces_key hkey hq, hquoted, hall, scanPieces, if_neg hne]

/-! ## Lists of arguments -/

/-- Arguments that others follow. -/
def leading (layout : Layout) (args : List NamedArgument) : Text :=
  args.flatMap fun arg => arg.render ++ ',' :: layout.blank

theorem NamedArgument.tight (arg : NamedArgument) : Tight arg.render := by
  obtain ⟨-, last, q, hlast, hq⟩ := arg.value.tight
  refine ⟨?_, ⟨arg.key ++ ':' :: last, q, ?_, hq⟩⟩
  · cases hkey : arg.key with
    | nil => exact ⟨':', arg.value.render, by rw [NamedArgument.render, hkey]; rfl, rfl⟩
    | cons c key =>
      refine ⟨c, key ++ ':' :: arg.value.render, by rw [NamedArgument.render, hkey]; rfl, ?_⟩
      exact isWhitespace_of_isNameChar (arg.keyChars c (hkey ▸ List.mem_cons_self))
  · rw [NamedArgument.render, hlast, List.append_assoc, List.cons_append]

variable (layout : Layout)

theorem scanPieces_leading (hcurrent : Blank current) (args : List NamedArgument) (rest : Text) :
    ∃ current', Blank current' ∧ scanPieces none current (leading layout args ++ rest) =
      args.map NamedArgument.render ++ scanPieces none current' rest := by
  induction args generalizing current with
  | nil => exact ⟨current, hcurrent, rfl⟩
  | cons arg args ih =>
    obtain ⟨current', hcurrent', hrest⟩ := ih layout.isBlank
    have htrim := trim_padded hcurrent LanguageAdapter.blank_nil arg.tight
    rw [List.append_nil] at htrim
    have hblank : ∀ c ∈ layout.blank, isQuote c = false ∧ c ≠ ',' := by
      intro c hc
      constructor
      · refine Bool.eq_false_iff.mpr fun hquote => ?_
        exact Blank.notMem layout.isBlank (isWhitespace_of_isQuote hquote) hc
      · rintro rfl
        exact Blank.notMem layout.isBlank (by decide) hc
    have htext : leading layout (arg :: args) ++ rest =
        arg.render ++ ',' :: (layout.blank ++ (leading layout args ++ rest)) := by
      simp only [leading, List.flatMap_cons, List.append_assoc, List.cons_append]
    refine ⟨current', hcurrent', ?_⟩
    rw [htext, scanPieces_argument, scanPieces, if_neg (by decide), if_pos ⟨rfl, rfl⟩, htrim,
      scanPieces_plain hblank, List.nil_append, hrest, List.map_cons, List.cons_append]

/-! ## Reading pieces -/

theorem trim_nameChars (h : ∀ c ∈ text, isNameChar c = true) : trim text = text := by
  rcases eq_or_ne text [] with rfl | hne
  · rfl
  · exact trim_tight (LanguageAdapter.tight_of_forall hne fun c hc =>
      isWhitespace_of_isNameChar (h c hc))

theorem parsePiece_of_key (hkey : ∀ c ∈ front, isNameChar c = true) (hq : isQuote q = true)
    (htrim : trim (q :: text) = q :: rest) :
    parsePiece (front ++ ':' :: q :: text) =
      (parseSingleQuotedOrDouble (q :: rest)).map fun value =>
        (String.ofList front, String.ofList value) := by
  have hcolon : ':' ∉ front := notMem_of_nameChars hkey (by decide)
  have hquote : (q :: rest).head? = some '"' ∨ (q :: rest).head? = some '\'' :=
    (isQuote_iff.mp hq).symm.imp (congrArg some) (congrArg some)
  rw [parsePiece, splitOnce_append hcolon]
  simp only [htrim, trim_nameChars hkey]
  rw [if_pos hquote]
  cases parseSingleQuotedOrDouble (q :: rest) <;> rfl

/-- An argument by its name. -/
def NamedArgument.pair (arg : NamedArgument) : String × String :=
  (String.ofList arg.key, String.ofList arg.value.text)

theorem parsePiece_render (arg : NamedArgument) : parsePiece arg.render = .ok arg.pair := by
  have htrim : trim arg.value.render = arg.value.render := trim_tight arg.value.tight
  rw [QuotedValue.render] at htrim
  rw [NamedArgument.render, QuotedValue.render,
    parsePiece_of_key arg.keyChars arg.value.isQuote_quote htrim, ← QuotedValue.render,
    parseSingleQuotedOrDouble_render]
  rfl

theorem foldlM_render (args : List NamedArgument) (table : StageArgs) :
    (args.map NamedArgument.render).foldlM insertPiece table =
      .ok ((args.map NamedArgument.pair).foldl UniqueTable.upsert table) := by
  induction args generalizing table with
  | nil => rfl
  | cons arg args ih =>
    have hinsert : insertPiece table arg.render = .ok (table.upsert arg.pair) := by
      rw [insertPiece, parsePiece_render]
      rfl
    rw [List.map_cons, List.foldlM_cons, hinsert, List.map_cons, List.foldl_cons]
    exact ih _

/-! ## Reading arguments -/

theorem blank_of_trim_eq_nil (h : trim text = []) : Blank text := by
  rw [trim, List.reverse_eq_nil_iff, List.dropWhile_eq_nil_iff] at h
  intro c hc
  rw [← List.takeWhile_append_dropWhile (p := isWhitespace) (l := text)] at hc
  rcases List.mem_append.mp hc with hc | hc
  · exact List.mem_takeWhile_imp hc
  · exact h c (List.mem_reverse.mpr hc)

theorem trim_ne_nil (hc : c ∈ text) (hnot : isWhitespace c = false) : trim text ≠ [] :=
  fun h => Blank.notMem (blank_of_trim_eq_nil h) hnot hc

theorem renderArguments_append_cons (front : List NamedArgument) (arg : NamedArgument)
    (back : List NamedArgument) :
    renderArguments layout (front ++ arg :: back) =
      leading layout front ++ renderArguments layout (arg :: back) := by
  induction front with
  | nil => rfl
  | cons first front ih =>
    have hcons : renderArguments layout (first :: (front ++ arg :: back)) =
        first.render ++ ',' :: (layout.blank ++ renderArguments layout (front ++ arg :: back)) := by
      cases front <;> rfl
    rw [List.cons_append, hcons, ih]
    simp only [leading, List.flatMap_cons, List.append_assoc, List.cons_append]

/-- The arguments of a text are its own. -/
theorem parseNamedArgs_render (args : List NamedArgument) :
    parseNamedArgs (renderArguments layout args) = .ok (argumentTable args) := by
  rcases List.eq_nil_or_concat' args with rfl | ⟨front, arg, rfl⟩
  · rfl
  · have hrender : renderArguments layout (front ++ [arg]) =
        leading layout front ++ (arg.render ++ []) := by
      rw [renderArguments_append_cons, List.append_nil]
      rfl
    obtain ⟨current, hcurrent, hpieces⟩ :=
      scanPieces_leading layout LanguageAdapter.blank_nil front (arg.render ++ [])
    have htrim := trim_padded hcurrent LanguageAdapter.blank_nil arg.tight
    rw [List.append_nil] at htrim
    have hlast : scanPieces none current (arg.render ++ []) = [arg.render] := by
      rw [scanPieces_argument, scanPieces, htrim, if_neg arg.tight.ne_nil]
    have hne : trim (leading layout front ++ (arg.render ++ [])) ≠ [] := by
      obtain ⟨⟨c, rest, hhead, hc⟩, -⟩ := arg.tight
      refine trim_ne_nil (List.mem_append_right _ (List.mem_append_left _ ?_)) hc
      rw [hhead]
      exact List.mem_cons_self
    rw [parseNamedArgs, hrender, if_neg hne, hpieces, hlast, ← List.map_singleton,
      ← List.map_append, foldlM_render]
    rfl

/-- A text that ends before the quote of its last argument is closed is refused. -/
theorem parseNamedArgs_unclosed (args : List NamedArgument)
    (hkey : ∀ c ∈ front, isNameChar c = true) (hq : isQuote q = true) (h : q ∉ text) :
    ∃ input, parseNamedArgs (leading layout args ++ (front ++ ':' :: q :: text)) =
      .error (.expectedQuotedString input) := by
  have hwhite := isWhitespace_of_isQuote hq
  have hquote : Tight ([] ++ [q]) := ⟨⟨q, [], rfl, hwhite⟩, ⟨[], q, rfl, hwhite⟩⟩
  have hfront : Tight (front ++ [':'] ++ [q]) := by
    refine LanguageAdapter.tight_of_forall (by simp) fun c hc => ?_
    simp only [List.mem_append, List.mem_singleton] at hc
    rcases hc with (hc | rfl) | rfl
    · exact isWhitespace_of_isNameChar (hkey c hc)
    · decide
    · exact hwhite
  obtain ⟨current, hcurrent, hpieces⟩ :=
    scanPieces_leading layout LanguageAdapter.blank_nil args (front ++ ':' :: q :: text)
  obtain ⟨kept, hkept, htrim⟩ := trim_open hcurrent hfront text
  obtain ⟨kept', hkept', htrim'⟩ := trim_open LanguageAdapter.blank_nil hquote kept
  have hnot : q ∉ kept' := fun hmem => h (hkept.subset (hkept'.subset hmem))
  simp only [List.append_assoc, List.singleton_append, List.nil_append] at htrim htrim'
  have hlast : scanPieces none current (front ++ ':' :: q :: text) =
      [front ++ ':' :: q :: kept] := by
    rw [scanPieces_unclosed hkey hq h, htrim]
    rw [htrim]
    simp
  have hpiece : parsePiece (front ++ ':' :: q :: kept) =
      .error (.expectedQuotedString (q :: kept')) := by
    rw [parsePiece_of_key hkey hq htrim', parseSingleQuotedOrDouble_unclosed hq hnot]
    rfl
  have hne : trim (leading layout args ++ (front ++ ':' :: q :: text)) ≠ [] := by
    refine trim_ne_nil (List.mem_append_right _ (List.mem_append_right _ ?_)) hwhite
    exact List.mem_cons_of_mem _ List.mem_cons_self
  refine ⟨q :: kept', ?_⟩
  rw [parseNamedArgs, if_neg hne, hpieces, hlast, List.foldlM_append, foldlM_render]
  change insertPiece _ _ >>= _ = _
  rw [insertPiece, hpiece]
  rfl

end DevqlGraphql
end Bitloops
