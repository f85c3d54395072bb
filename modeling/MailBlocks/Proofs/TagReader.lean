import MailBlocks.Markup.Token
import MailBlocks.Markup.Url
import MailBlocks.Proofs.StyleText

/-!
# Tags read off printed markup

A reader takes for a tag what stands between a `<` and the next `>` outside double quotes. From
clean tokens, whose names are words and whose values and texts hold no delimiter, it reads the tags
that they were printed from, whatever the values and texts are.

* `tagsOf`: the tags that a reader sees.
* `Token.Clean`: tokens whose parts keep their places.
* `tagsOf_printAll`: the tags of printed tokens.
* `declarations_style`, `properties_style`: what a style attribute declares.
-/

namespace MailBlocks.Markup

open MergeField Text

/-! ## The reader -/

/-- What a tag does. Comments and what is declared about the document are notes. -/
inductive TagKind where
  | start
  | empty
  | stop
  | note
  deriving DecidableEq, Repr

/-- **A tag as a reader sees it**, the values of its attributes as they are written. -/
structure Tag where
  kind : TagKind
  name : String
  attributes : List (String × String)
  deriving DecidableEq, Repr

/-- The bodies of the tags of a text. Of a tag that has begun, it is known whether the reader is
between double quotes, and what was read. -/
def bodiesAfter : Option (Bool × List Char) → List Char → List (List Char)
  | _, [] => []
  | none, c :: s => if c = '<' then bodiesAfter (some (false, [])) s else bodiesAfter none s
  | some (quoted, body), c :: s =>
    if c = '>' && !quoted then body :: bodiesAfter none s
    else bodiesAfter (some (quoted != (c = '"'), body ++ [c])) s

/-- The name of an attribute: the word before the equals sign. -/
def attributeName (before : List Char) : String :=
  String.ofList (trimBlank (before.takeWhile (· ≠ '=')))

/-- The attributes, from what stands outside and between double quotes by turns. What is left behind
the last quotes is an attribute without a value, unless it is blank. -/
def attributesOf : List (List Char) → List (String × String)
  | before :: value :: pieces => (attributeName before, String.ofList value) :: attributesOf pieces
  | [rest] => if rest.all isBlank then [] else [(attributeName rest, "")]
  | [] => []

/-- The tag with a name in front and attributes behind it. -/
def Tag.named (kind : TagKind) (body : List Char) : Tag :=
  ⟨kind, String.ofList (body.takeWhile fun c => !isBlank c),
    attributesOf (splitAt '"' (body.dropWhile fun c => !isBlank c))⟩

/-- The tag with a body. Notes have no attributes. -/
def Tag.ofBody (body : List Char) : Tag :=
  match body with
  | '/' :: rest => named .stop rest
  | '!' :: rest => ⟨.note, String.ofList (rest.takeWhile fun c => !isBlank c), []⟩
  | body => if body.getLast? = some '/' then named .empty body.dropLast else named .start body

/-- **The tags of a text** in order. -/
def tagsOf (s : String) : List Tag :=
  (bodiesAfter none s.toList).map Tag.ofBody

/-- A value with its references read. -/
def decoded (value : String) : String :=
  String.ofList (decode value.toList)

/-- **The declarations in the value of a style attribute**, with what follows the last semicolon:
references are read, and each declaration is a property and a value. -/
def declarations (value : String) : List (String × String) :=
  (splitAt ';' (decode value.toList)).map fun d =>
    (String.ofList (d.takeWhile (· ≠ ':')), String.ofList ((d.dropWhile (· ≠ ':')).drop 1))

/-- **The properties that the value of a style attribute declares**, with what follows the last
semicolon: references are read, and the declarations stand between semicolons. -/
def properties (value : String) : List String :=
  (splitAt ';' (decode value.toList)).map fun d => String.ofList (d.takeWhile (· ≠ ':'))

/-! ## Clean tokens -/

/-- The characters of the names of tags, attributes and properties. -/
def isWordMark (c : Char) : Bool := isNameChar c || c = '-' || c = ':'

/-- **A word of markup.** -/
def Word (s : String) : Prop := s ≠ "" ∧ ∀ c ∈ s.toList, isWordMark c

theorem all_iff_word (s : String) : (s ≠ "" ∧ s.toList.all isWordMark) ↔ Word s := by
  simp [Word]

instance (s : String) : Decidable (Word s) :=
  decidable_of_iff _ (all_iff_word s)

/-- **A name for tags**, other than that of line breaks. -/
def TagName (s : String) : Prop := Word s ∧ s ≠ "br"

instance (s : String) : Decidable (TagName s) :=
  inferInstanceAs (Decidable (Word s ∧ s ≠ "br"))

/-- The names of the attributes that hold addresses. -/
def addressNames : List String := ["href", "src"]

/-- **A name for attributes** other than the style. It does not end like one for addresses unless it
is one, and what follows a closing quote, if it is read as an address, is not a blocked one. -/
def AttributeName (s : String) : Prop :=
  Word s ∧ s ≠ "style" ∧ (∀ n ∈ addressNames, n.toList <:+ s.toList → s = n) ∧
    ¬ isBlockedUrl (" " ++ s ++ "=")

instance (s : String) : Decidable (AttributeName s) :=
  inferInstanceAs (Decidable (Word s ∧ s ≠ "style" ∧
    (∀ n ∈ addressNames, n.toList <:+ s.toList → s = n) ∧ ¬ isBlockedUrl (" " ++ s ++ "=")))

/-- **A name for properties.** -/
def PropertyName (s : String) : Prop := Word s ∧ ':' ∉ s.toList

instance (s : String) : Decidable (PropertyName s) :=
  inferInstanceAs (Decidable (Word s ∧ ':' ∉ s.toList))

/-- The name of an attribute. -/
def Attribute.name : Attribute → String
  | plain name _ => name
  | style _ => "style"

/-- The value of an attribute as it is written. -/
def Attribute.value : Attribute → String
  | plain _ value => value
  | style declarations => String.join (declarations.map fun (p, v) => p ++ ":" ++ v ++ ";")

/-- **Clean attributes**: their values stay between the quotes, and the values of declarations stay
in their declarations. -/
def Attribute.Clean : Attribute → Prop
  | plain name value => AttributeName name ∧ Inert value
  | style declarations => ∀ d ∈ declarations, PropertyName d.1 ∧ Contained d.2

/-- Whether a reader is between double quotes after some characters. -/
def quotedAfter (quoted : Bool) (s : List Char) : Bool :=
  s.foldl (fun q c => q != (c = '"')) quoted

/-- **Clean tokens**: no value and no text of them could begin or end anything. -/
def Token.Clean : Token → Prop
  | doctype declaration =>
    '>' ∉ declaration.toList ∧ quotedAfter false declaration.toList = false ∧
      ∀ n ∈ addressNames, ¬ occurs (n ++ "=\"").toList declaration.toList
  | start name attributes | empty name attributes => TagName name ∧ ∀ a ∈ attributes, a.Clean
  | stop name => TagName name
  | text escaped => Inert escaped
  | _ => True

/-- The tags that a token is read as. -/
def Token.tags : Token → List Tag
  | doctype _ => [⟨.note, "DOCTYPE", []⟩]
  | start name attributes => [⟨.start, name, attributes.map fun a => (a.name, a.value)⟩]
  | empty name attributes => [⟨.empty, name, attributes.map fun a => (a.name, a.value)⟩]
  | stop name => [⟨.stop, name, []⟩]
  | text _ => []
  | lineBreak => [⟨.empty, "br", []⟩]
  | legacyStart => [⟨.note, "--[if", []⟩]
  | legacyStop => [⟨.note, "[endif]--", []⟩]
  | modernStart => [⟨.note, "--[if", []⟩, ⟨.note, "--", []⟩]
  | modernStop => [⟨.note, "--<![endif]--", []⟩]

/-! ## Words -/

theorem isWordMark_cases {c : Char} (h : isWordMark c) : isNameChar c ∨ c = '-' ∨ c = ':' := by
  simp only [isWordMark, Bool.or_eq_true, decide_eq_true_eq] at h
  rcases h with (h | h) | h
  · exact .inl h
  · exact .inr (.inl h)
  · exact .inr (.inr h)

theorem not_isBlank_of_isWordMark {c : Char} (h : isWordMark c) : ¬ isBlank c := by
  rcases isWordMark_cases h with h | rfl | rfl
  · exact not_isBlank_of_isNameChar h
  · decide
  · decide

/-- A character that no word has is not in one. -/
theorem Word.not_mem {s : String} (hs : Word s) {c : Char} (h : ¬ isWordMark c) :
    c ∉ s.toList := fun hm => h (hs.2 c hm)

theorem Word.toList_ne_nil {s : String} (hs : Word s) : s.toList ≠ [] := by
  rw [Ne, String.toList_eq_nil_iff]
  exact hs.1

theorem Word.inert {s : String} (hs : Word s) : Inert s := fun c hc =>
  not_isDelimiter_of (by decide) (hs.2 c hc)

/-- The name of an attribute, with the blank and the equals sign around it, has no quote. -/
theorem Word.quote_not_mem {s : String} (hs : Word s) : '"' ∉ ' ' :: (s.toList ++ ['=']) := by
  simp [hs.not_mem (show ¬ isWordMark '"' by decide)]

theorem inert_append {s t : String} : Inert (s ++ t) ↔ Inert s ∧ Inert t := by
  unfold Inert
  rw [String.toList_append, List.forall_mem_append]

theorem Inert.append {s t : String} (hs : Inert s) (ht : Inert t) : Inert (s ++ t) :=
  inert_append.2 ⟨hs, ht⟩

theorem Inert.not_mem {s : String} (hs : Inert s) {c : Char} (h : isDelimiter c) :
    c ∉ s.toList := fun hm => hs c hm h

theorem inert_join {l : List String} (h : ∀ s ∈ l, Inert s) : Inert (String.join l) := by
  intro c hc
  rw [String.toList_join] at hc
  obtain ⟨s, hs, hc⟩ := List.mem_flatMap.1 hc
  exact h s hs c hc

namespace Attribute

variable {a : Attribute}

theorem toList_print (a : Attribute) :
    a.print.toList = ' ' :: (a.name.toList ++ '=' :: '"' :: (a.value.toList ++ ['"'])) := by
  cases a <;> simp [print, name, value, String.toList_append]

theorem Clean.word_name (h : a.Clean) : Word a.name := by
  cases a with
  | plain n v => exact h.1.1
  | style ds => exact (by decide : Word "style")

theorem Clean.inert_value (h : a.Clean) : Inert a.value := by
  cases a with
  | plain n v => exact h.2
  | style ds =>
    refine inert_join fun s hs => ?_
    obtain ⟨d, hd, rfl⟩ := List.mem_map.1 hs
    obtain ⟨⟨hw, -⟩, hc⟩ := h d hd
    have hcolon : Inert ":" := by decide
    have hsemicolon : Inert ";" := by decide
    exact ((hw.inert.append hcolon).append hc.inert).append hsemicolon

end Attribute

/-! ## Bodies -/

theorem quotedAfter_append (q : Bool) (s t : List Char) :
    quotedAfter q (s ++ t) = quotedAfter (quotedAfter q s) t :=
  List.foldl_append

/-- Text without a double quote leaves the reader where it is. -/
theorem quotedAfter_of_not_mem {s : List Char} (h : '"' ∉ s) (q : Bool) : quotedAfter q s = q := by
  induction s with
  | nil => rfl
  | cons c s ih =>
    simp only [List.mem_cons, not_or] at h
    have hc : (q != decide (c = '"')) = q := by simp [Ne.symm h.1]
    rw [quotedAfter, List.foldl_cons, hc]
    exact ih h.2

/-- A reader goes through text without a `>` in one tag. -/
theorem bodiesAfter_append {s : List Char} (h : '>' ∉ s) (q : Bool) (body r : List Char) :
    bodiesAfter (some (q, body)) (s ++ r) =
      bodiesAfter (some (quotedAfter q s, body ++ s)) r := by
  induction s generalizing q body with
  | nil => simp [quotedAfter]
  | cons c s ih =>
    simp only [List.mem_cons, not_or] at h
    have hc : (decide (c = '>') && !q) = false := by simp [Ne.symm h.1]
    rw [List.cons_append, bodiesAfter, hc, if_neg (by decide), ih h.2, List.append_assoc,
      List.singleton_append, quotedAfter, quotedAfter, List.foldl_cons]

/-- What a tag is read as: its body, if the body is without `>` and closes its quotes. -/
theorem bodiesAfter_tag {s : List Char} (h : '>' ∉ s) (hq : quotedAfter false s = false)
    (r : List Char) : bodiesAfter none ('<' :: (s ++ '>' :: r)) = s :: bodiesAfter none r := by
  have hend : ∀ b, bodiesAfter (some (false, b)) ('>' :: r) = b :: bodiesAfter none r := fun _ => rfl
  rw [bodiesAfter, if_pos rfl, bodiesAfter_append h, hq, List.nil_append, hend]

/-- Text without a `<` has no tags. -/
theorem bodiesAfter_text {s : List Char} (h : '<' ∉ s) (r : List Char) :
    bodiesAfter none (s ++ r) = bodiesAfter none r := by
  induction s with
  | nil => rfl
  | cons c s ih =>
    simp only [List.mem_cons, not_or] at h
    rw [List.cons_append, bodiesAfter, if_neg (Ne.symm h.1), ih h.2]

/-- The characters of attributes in a tag. -/
def printedAttributes (as : List Attribute) : List Char :=
  as.flatMap fun a => a.print.toList

/-- Clean attributes do not end a tag, and close their quotes. -/
theorem printedAttributes_closed {as : List Attribute} (h : ∀ a ∈ as, a.Clean) :
    '>' ∉ printedAttributes as ∧ quotedAfter false (printedAttributes as) = false := by
  induction as with
  | nil => exact ⟨by simp [printedAttributes], rfl⟩
  | cons a as ih =>
    obtain ⟨ha, has⟩ := List.forall_mem_cons.1 h
    obtain ⟨hgt, hq⟩ := ih has
    have hname := ha.word_name
    have hvalue := ha.inert_value
    have hn : '>' ∉ a.name.toList := hname.not_mem (by decide)
    have hv : '>' ∉ a.value.toList := hvalue.not_mem (by decide)
    have hvq : '"' ∉ a.value.toList := hvalue.not_mem (by decide)
    have hsplit : printedAttributes (a :: as) = (' ' :: (a.name.toList ++ ['='])) ++
        (['"'] ++ (a.value.toList ++ (['"'] ++ printedAttributes as))) := by
      rw [printedAttributes, List.flatMap_cons, a.toList_print, printedAttributes]
      simp
    constructor
    · rw [hsplit]
      simp [hn, hv, hgt]
    -- the two quotes of the value undo each other
    · rw [hsplit, quotedAfter_append, quotedAfter_of_not_mem hname.quote_not_mem,
        quotedAfter_append,
        quotedAfter_append, quotedAfter_of_not_mem hvq, quotedAfter_append]
      exact hq

/-! ## Attributes -/

theorem splitAt_of_not_mem {sep : Char} {s : List Char} (h : sep ∉ s) : splitAt sep s = [s] := by
  induction s with
  | nil => rfl
  | cons c s ih =>
    simp only [List.mem_cons, not_or] at h
    rw [splitAt, if_neg (Ne.symm h.1), ih h.2]

theorem splitAt_append_cons {sep : Char} {s : List Char} (h : sep ∉ s) (r : List Char) :
    splitAt sep (s ++ sep :: r) = s :: splitAt sep r := by
  induction s with
  | nil => rw [List.nil_append, splitAt, if_pos rfl]
  | cons c s ih =>
    simp only [List.mem_cons, not_or] at h
    rw [List.cons_append, splitAt, if_neg (Ne.symm h.1), ih h.2]

/-- What stands up to the first separator. -/
theorem takeWhile_ne_append_cons {sep : Char} {s : List Char} (h : sep ∉ s) (r : List Char) :
    (s ++ sep :: r).takeWhile (· ≠ sep) = s := by
  have hne : ∀ c ∈ s, decide (c ≠ sep) := by
    intro c hc
    refine decide_eq_true ?_
    rintro rfl
    exact h hc
  rw [List.takeWhile_append_of_pos hne, List.takeWhile_cons_of_neg (by simp), List.append_nil]

theorem trimBlank_of_forall {s : List Char} (h : ∀ c ∈ s, ¬ isBlank c) : trimBlank s = s := by
  have hd : ∀ t : List Char, (∀ c ∈ t, ¬ isBlank c) → t.dropWhile isBlank = t := by
    intro t ht
    cases t with
    | nil => rfl
    | cons c t => exact List.dropWhile_cons_of_neg (ht c List.mem_cons_self)
  rw [trimBlank, hd s h, hd _ fun c hc => h c (List.mem_reverse.1 hc), List.reverse_reverse]

theorem attributeName_word {n : String} (hn : Word n) :
    attributeName (' ' :: (n.toList ++ ['='])) = n := by
  have hblank : ∀ c ∈ n.toList, ¬ isBlank c := fun c hc => not_isBlank_of_isWordMark (hn.2 c hc)
  have hequals : '=' ∉ ' ' :: n.toList := by
    simp [hn.not_mem (show ¬ isWordMark '=' by decide)]
  have htake : (' ' :: (n.toList ++ ['='])).takeWhile (· ≠ '=') = ' ' :: n.toList :=
    takeWhile_ne_append_cons hequals []
  have htrim : trimBlank (' ' :: n.toList) = trimBlank n.toList := by
    rw [trimBlank, List.dropWhile_cons_of_pos (by decide), ← trimBlank]
  rw [attributeName, htake, htrim, trimBlank_of_forall hblank, String.ofList_toList]

/-- **Printed attributes are read back**, whatever blanks follow the last closing quote. -/
theorem attributesOf_printedAttributes {as : List Attribute} (h : ∀ a ∈ as, a.Clean)
    {e : List Char} (he : '"' ∉ e) (hblank : e.all isBlank) :
    attributesOf (splitAt '"' (printedAttributes as ++ e)) =
      as.map fun a => (a.name, a.value) := by
  induction as with
  | nil =>
    rw [printedAttributes, List.flatMap_nil, List.nil_append, splitAt_of_not_mem he, attributesOf,
      if_pos hblank, List.map_nil]
  | cons a as ih =>
    obtain ⟨ha, has⟩ := List.forall_mem_cons.1 h
    have hvq : '"' ∉ a.value.toList := ha.inert_value.not_mem (by decide)
    have hsplit : printedAttributes (a :: as) ++ e = (' ' :: (a.name.toList ++ ['='])) ++
        '"' :: (a.value.toList ++ '"' :: (printedAttributes as ++ e)) := by
      rw [printedAttributes, List.flatMap_cons, a.toList_print, printedAttributes]
      simp
    rw [hsplit, splitAt_append_cons ha.word_name.quote_not_mem, splitAt_append_cons hvq,
      attributesOf, ih has, attributeName_word ha.word_name, String.ofList_toList, List.map_cons]

/-! ## Tags -/

/-- What follows the name in a printed tag begins with a blank, or is empty. -/
theorem takeWhile_word {n : String} (hn : Word n) {r : List Char}
    (hr : r = [] ∨ r.head? = some ' ') :
    (n.toList ++ r).takeWhile (fun c => !isBlank c) = n.toList ∧
      (n.toList ++ r).dropWhile (fun c => !isBlank c) = r := by
  have hpos : ∀ c ∈ n.toList, (!isBlank c) = true := by
    intro c hc
    simpa using not_isBlank_of_isWordMark (hn.2 c hc)
  rw [List.takeWhile_append_of_pos hpos, List.dropWhile_append_of_pos hpos]
  rcases hr with rfl | hr
  · simp
  · obtain ⟨c, r, rfl⟩ := List.exists_cons_of_ne_nil (by rintro rfl; simp at hr : r ≠ [])
    obtain rfl : c = ' ' := by simpa using hr
    rw [List.takeWhile_cons_of_neg (by decide), List.dropWhile_cons_of_neg (by decide)]
    simp

theorem head?_printedAttributes_append (as : List Attribute) {e : List Char}
    (he : e = [] ∨ e.head? = some ' ') :
    printedAttributes as ++ e = [] ∨ (printedAttributes as ++ e).head? = some ' ' := by
  cases as with
  | nil => exact he
  | cons a as =>
    right
    rw [printedAttributes, List.flatMap_cons, a.toList_print]
    rfl

theorem Tag.named_printed {n : String} {as : List Attribute} (hn : Word n)
    (h : ∀ a ∈ as, a.Clean) (kind : TagKind) {e : List Char} (he : e = [] ∨ e = [' ']) :
    Tag.named kind (n.toList ++ (printedAttributes as ++ e)) =
      ⟨kind, n, as.map fun a => (a.name, a.value)⟩ := by
  have hhead : e = [] ∨ e.head? = some ' ' := by
    rcases he with rfl | rfl
    · exact .inl rfl
    · exact .inr rfl
  have hquote : '"' ∉ e := by rcases he with rfl | rfl <;> decide
  have hblank : e.all isBlank := by rcases he with rfl | rfl <;> decide
  obtain ⟨ht, hd⟩ := takeWhile_word hn (head?_printedAttributes_append as hhead)
  rw [Tag.named, ht, hd, attributesOf_printedAttributes h hquote hblank, String.ofList_toList]

/-- The body of a tag with a word in front is neither that of an end tag nor that of a note. -/
theorem Tag.ofBody_word {n : String} (hn : Word n) (r : List Char) :
    Tag.ofBody (n.toList ++ r) =
      if (n.toList ++ r).getLast? = some '/' then named .empty (n.toList ++ r).dropLast
      else named .start (n.toList ++ r) := by
  obtain ⟨c, s, hs⟩ := List.exists_cons_of_ne_nil hn.toList_ne_nil
  have hc : isWordMark c := hn.2 c (by rw [hs]; exact List.mem_cons_self)
  rw [hs, List.cons_append]
  unfold Tag.ofBody
  split
  · next h => exact absurd ((List.cons.inj h).1 ▸ hc) (by decide)
  · next h => exact absurd ((List.cons.inj h).1 ▸ hc) (by decide)
  · rfl

theorem getLast?_printedAttributes {as : List Attribute} (hne : as ≠ []) :
    (printedAttributes as).getLast? = some '"' := by
  obtain ⟨bs, a, rfl⟩ := (List.eq_nil_or_concat as).resolve_left hne
  rw [printedAttributes, List.concat_eq_append, List.flatMap_append, List.flatMap_singleton,
    a.toList_print]
  simp [List.getLast?_append, List.getLast?_cons]

theorem Tag.ofBody_start {n : String} {as : List Attribute} (hn : Word n)
    (h : ∀ a ∈ as, a.Clean) :
    Tag.ofBody (n.toList ++ printedAttributes as) =
      ⟨.start, n, as.map fun a => (a.name, a.value)⟩ := by
  -- the body ends in a letter of the name or in a quote, so the tag is not an empty one
  have hlast : (n.toList ++ printedAttributes as).getLast? ≠ some '/' := by
    intro hl
    by_cases has : as = []
    · rw [has, printedAttributes, List.flatMap_nil, List.append_nil] at hl
      exact hn.not_mem (by decide) (List.mem_of_getLast? hl)
    · rw [List.getLast?_append, getLast?_printedAttributes has] at hl
      simp at hl
  rw [Tag.ofBody_word hn, if_neg hlast]
  have hnamed := Tag.named_printed hn h .start (.inl rfl)
  rwa [List.append_nil] at hnamed

theorem Tag.ofBody_empty {n : String} {as : List Attribute} (hn : Word n)
    (h : ∀ a ∈ as, a.Clean) {e : List Char} (he : e = [] ∨ e = [' ']) :
    Tag.ofBody (n.toList ++ (printedAttributes as ++ (e ++ ['/']))) =
      ⟨.empty, n, as.map fun a => (a.name, a.value)⟩ := by
  have happ : n.toList ++ (printedAttributes as ++ (e ++ ['/'])) =
      n.toList ++ (printedAttributes as ++ e) ++ ['/'] := by
    simp
  have hlast : (n.toList ++ (printedAttributes as ++ e) ++ ['/']).getLast? = some '/' := by
    simp [List.getLast?_append]
  rw [Tag.ofBody_word hn, happ, if_pos hlast, List.dropLast_concat, Tag.named_printed hn h _ he]

theorem Tag.ofBody_stop {n : String} (hn : Word n) :
    Tag.ofBody ('/' :: n.toList) = ⟨.stop, n, []⟩ := by
  have hnone : ∀ a ∈ ([] : List Attribute), a.Clean := by simp
  have hnamed := Tag.named_printed hn hnone .stop (.inl rfl)
  rw [printedAttributes, List.flatMap_nil, List.append_nil, List.append_nil] at hnamed
  exact hnamed

/-- **A clean token is text or tags**: bodies between angle brackets, which close their quotes. -/
theorem Token.Clean.bodies {t : Token} (h : t.Clean) :
    (∃ s, t = .text s) ∨ ∃ bodies : List (List Char),
      t.print.toList = bodies.flatMap (fun b => '<' :: (b ++ ['>'])) ∧
      t.tags = bodies.map Tag.ofBody ∧
      ∀ b ∈ bodies, '>' ∉ b ∧ quotedAfter false b = false := by
  have hone : ∀ {body : List Char} {tag : Tag}, t.print.toList = '<' :: (body ++ ['>']) →
      t.tags = [tag] → Tag.ofBody body = tag → '>' ∉ body → quotedAfter false body = false →
      ∃ bodies : List (List Char), t.print.toList = bodies.flatMap (fun b => '<' :: (b ++ ['>'])) ∧
        t.tags = bodies.map Tag.ofBody ∧ ∀ b ∈ bodies, '>' ∉ b ∧ quotedAfter false b = false := by
    intro body tag hp ht hb hgt hq
    refine ⟨[body], by simp [hp], by simp [ht, hb], fun b hm => ?_⟩
    obtain rfl := List.mem_singleton.1 hm
    exact ⟨hgt, hq⟩
  have hword : ∀ {n : String}, Word n → '>' ∉ n.toList ∧ ∀ q, quotedAfter q n.toList = q :=
    fun hn => ⟨hn.not_mem (by decide), quotedAfter_of_not_mem (hn.not_mem (by decide))⟩
  cases t with
  | text s => exact .inl ⟨s, rfl⟩
  | doctype d =>
    obtain ⟨hgt, hq, -⟩ := h
    have hbody : '>' ∉ "!DOCTYPE ".toList ++ d.toList := by
      rw [List.mem_append, not_or]
      exact ⟨by decide, hgt⟩
    refine .inr (hone ?_ rfl rfl hbody ?_)
    · simp [Token.print, String.toList_append]
    · rw [quotedAfter_append]
      exact hq
  | start n as =>
    obtain ⟨⟨hn, -⟩, has⟩ := h
    obtain ⟨hgt, hq⟩ := hword hn
    obtain ⟨hgt', hq'⟩ := printedAttributes_closed has
    refine .inr (hone ?_ rfl (Tag.ofBody_start hn has) ?_ ?_)
    · simp [Token.print, printedAttributes, String.toList_append, String.toList_join,
        List.flatMap_map]
    · simp [hgt, hgt']
    · rw [quotedAfter_append, hq, hq']
  | empty n as =>
    obtain ⟨⟨hn, -⟩, has⟩ := h
    obtain ⟨hgt, hq⟩ := hword hn
    obtain ⟨hgt', hq'⟩ := printedAttributes_closed has
    -- a blank stands before the slash if there are attributes
    obtain ⟨e, he, hp⟩ : ∃ e, (e = [] ∨ e = [' ']) ∧ (Token.empty n as).print.toList =
        '<' :: (n.toList ++ (printedAttributes as ++ (e ++ ['/'])) ++ ['>']) := by
      cases as with
      | nil => exact ⟨[], .inl rfl, by simp [Token.print, printedAttributes]⟩
      | cons a as =>
        refine ⟨[' '], .inr rfl, ?_⟩
        simp [Token.print, printedAttributes, String.toList_append, String.toList_join,
          List.flatMap_map]
    have hgte : '>' ∉ e ++ ['/'] := by rcases he with rfl | rfl <;> decide
    have hqe : quotedAfter false (e ++ ['/']) = false := by rcases he with rfl | rfl <;> rfl
    refine .inr (hone hp rfl (Tag.ofBody_empty hn has he) ?_ ?_)
    · rw [List.mem_append, List.mem_append, not_or, not_or]
      exact ⟨hgt, hgt', hgte⟩
    · rw [quotedAfter_append, hq, quotedAfter_append, hq', hqe]
  | stop n =>
    obtain ⟨hn, -⟩ := h
    obtain ⟨hgt, hq⟩ := hword hn
    refine .inr (hone ?_ rfl (Tag.ofBody_stop hn) ?_ ?_)
    · simp [Token.print, String.toList_append]
    · simp [hgt]
    · exact hq _
  | lineBreak => exact .inr ⟨["br /".toList], rfl, rfl, by decide⟩
  | legacyStart => exact .inr ⟨["!--[if mso]".toList], rfl, rfl, by decide⟩
  | legacyStop => exact .inr ⟨["![endif]--".toList], rfl, rfl, by decide⟩
  | modernStart => exact .inr ⟨["!--[if !mso]".toList, "!-- --".toList], rfl, rfl, by decide⟩
  | modernStop => exact .inr ⟨["!--<![endif]--".toList], rfl, rfl, by decide⟩

/-- **Printed tokens are read back** as their tags, whatever follows. -/
theorem bodiesAfter_print {t : Token} (h : t.Clean) (r : List Char) :
    (bodiesAfter none (t.print.toList ++ r)).map Tag.ofBody =
      t.tags ++ (bodiesAfter none r).map Tag.ofBody := by
  rcases h.bodies with ⟨s, rfl⟩ | ⟨bodies, hp, ht, hbodies⟩
  · rw [Token.print, bodiesAfter_text (Inert.not_mem h (by decide)), Token.tags, List.nil_append]
  · rw [hp, ht]
    clear hp ht
    induction bodies with
    | nil => rfl
    | cons b bodies ih =>
      obtain ⟨⟨hgt, hq⟩, hrest⟩ := List.forall_mem_cons.1 hbodies
      have happ : (b :: bodies).flatMap (fun b => '<' :: (b ++ ['>'])) ++ r =
          '<' :: (b ++ '>' :: (bodies.flatMap (fun b => '<' :: (b ++ ['>'])) ++ r)) := by
        simp
      rw [happ, bodiesAfter_tag hgt hq, List.map_cons, ih hrest, List.map_cons, List.cons_append]

/-- **The tags of printed tokens** are those of the tokens. -/
theorem tagsOf_printAll {ts : List Token} (h : ∀ t ∈ ts, t.Clean) :
    tagsOf (printAll ts) = ts.flatMap Token.tags := by
  rw [tagsOf, toList_printAll]
  induction ts with
  | nil => rfl
  | cons t ts ih =>
    obtain ⟨ht, hts⟩ := List.forall_mem_cons.1 h
    rw [List.flatMap_cons, bodiesAfter_print ht, List.flatMap_cons, ih hts]

/-! ## Declarations -/

theorem properties_eq_map (value : String) :
    properties value = (declarations value).map (·.1) := by
  rw [properties, declarations, List.map_map]
  rfl

/-- What follows the first separator. -/
theorem dropWhile_ne_append_cons {sep : Char} {s : List Char} (h : sep ∉ s) (r : List Char) :
    (s ++ sep :: r).dropWhile (· ≠ sep) = sep :: r := by
  have hne : ∀ c ∈ s, decide (c ≠ sep) := by
    intro c hc
    refine decide_eq_true ?_
    rintro rfl
    exact h hc
  rw [List.dropWhile_append_of_pos hne, List.dropWhile_cons_of_neg (by simp)]

/-- **A style attribute declares what it was made of**, with the references in the values read. -/
theorem declarations_style {ds : List (String × String)} (h : (Attribute.style ds).Clean) :
    declarations (Attribute.style ds).value =
      ds.map (fun d => (d.1, decoded d.2)) ++ [("", "")] := by
  unfold Attribute.value declarations
  rw [String.toList_join, List.flatMap_map]
  induction ds with
  | nil => rfl
  | cons d ds ih =>
    obtain ⟨⟨⟨hw, hcolon⟩, w, hv, hinert⟩, hds⟩ := List.forall_mem_cons.1 h
    have hamp : '&' ∉ d.1.toList ++ [':'] := by
      simp [hw.not_mem (show ¬ isWordMark '&' by decide)]
    have hsemi : ';' ∉ d.1.toList ++ ':' :: w := by
      have hw' : ';' ∉ w := fun hm => (hinert _ hm).2 rfl
      simp [hw.not_mem (show ¬ isWordMark ';' by decide), hw']
    have hname : (d.1.toList ++ ':' :: w).takeWhile (· ≠ ':') = d.1.toList :=
      takeWhile_ne_append_cons hcolon w
    have hrest : (d.1.toList ++ ':' :: w).dropWhile (· ≠ ':') = ':' :: w :=
      dropWhile_ne_append_cons hcolon w
    have hvalue : decoded d.2 = String.ofList w := by
      rw [decoded, hv, readsBack_ampersandChar.decode_flatMap]
    -- references are read back up to the semicolon, which belongs to none of them
    obtain ⟨r, hr⟩ : ∃ r, r = ds.flatMap fun d => (d.1 ++ ":" ++ d.2 ++ ";").toList := ⟨_, rfl⟩
    have hdecode : decode ((d.1 ++ ":" ++ d.2 ++ ";").toList ++ r) =
        (d.1.toList ++ ':' :: w) ++ ';' :: decode r := by
      have happ : (d.1 ++ ":" ++ d.2 ++ ";").toList ++ r =
          (d.1.toList ++ [':']) ++ (w.flatMap ampersandChar ++ ';' :: r) := by
        simp [String.toList_append, hv]
      rw [happ, decode_append_of_not_mem hamp, readsBack_ampersandChar.decode_append,
        decode_cons (by decide)]
      simp
    rw [List.flatMap_cons, ← hr, hdecode, splitAt_append_cons hsemi, List.map_cons, hname, hrest,
      String.ofList_toList, hr, ih hds, List.map_cons, hvalue]
    rfl

/-- **A style attribute declares its properties**, whatever values they get. -/
theorem properties_style {ds : List (String × String)} (h : (Attribute.style ds).Clean) :
    properties (Attribute.style ds).value = ds.map (·.1) ++ [""] := by
  rw [properties_eq_map, declarations_style h, List.map_append, List.map_map]
  rfl

/-! ## Texts of several lines -/

theorem not_isDelimiter_piece {sep : Char} {s piece : List Char} (h : ∀ c ∈ s, ¬ isDelimiter c)
    (hp : piece ∈ splitAt sep s) : ∀ c ∈ piece, ¬ isDelimiter c := by
  induction s generalizing piece with
  | nil =>
    rw [splitAt, List.mem_singleton] at hp
    rw [hp]
    simp
  | cons c s ih =>
    obtain ⟨hc, hs⟩ := List.forall_mem_cons.1 h
    rw [splitAt] at hp
    split at hp
    · rcases List.mem_cons.1 hp with rfl | hp
      · simp
      · exact ih hs hp
    -- a character other than the separator goes to the first piece of the rest
    · cases hx : splitAt sep s with
      | nil => exact absurd hx (splitAt_ne_nil sep s)
      | cons first pieces =>
        rw [hx] at hp ih
        rcases List.mem_cons.1 hp with rfl | hp
        · exact List.forall_mem_cons.2 ⟨hc, ih hs List.mem_cons_self⟩
        · exact ih hs (List.mem_cons_of_mem _ hp)

theorem mem_intersperse {α : Type} {x sep : α} {l : List α} (h : x ∈ l.intersperse sep) :
    x = sep ∨ x ∈ l := by
  induction l with
  | nil => simp at h
  | cons a l ih =>
    cases l with
    | nil => exact .inr h
    | cons b l =>
      rw [List.intersperse_cons_cons] at h
      rcases List.mem_cons.1 h with rfl | h
      · exact .inr List.mem_cons_self
      rcases List.mem_cons.1 h with rfl | h
      · exact .inl rfl
      · exact (ih h).imp_right (List.mem_cons_of_mem _)

/-- The tokens of several lines are breaks and inert texts. -/
theorem mem_lines {s : String} {t : Token} (h : t ∈ lines s) :
    t = .lineBreak ∨ ∃ e, t = .text e ∧ Inert e := by
  have hin : ∀ c ∈ mapPlain contentChar (unixLines s.toList), ¬ isDelimiter c := by
    rw [mapPlain_eq_flatMap fun c => contentChar_eq_self]
    intro d hd
    obtain ⟨c, -, hc⟩ := List.mem_flatMap.1 hd
    exact not_isDelimiter_contentChar hc
  rcases mem_intersperse h with rfl | h
  · exact .inl rfl
  · obtain ⟨piece, hp, rfl⟩ := List.mem_map.1 h
    refine .inr ⟨_, rfl, fun c hc => ?_⟩
    rw [String.toList_ofList] at hc
    exact not_isDelimiter_piece hin hp c hc

end MailBlocks.Markup
