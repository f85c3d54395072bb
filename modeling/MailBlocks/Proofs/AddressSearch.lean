import MailBlocks.Proofs.Addresses

/-!
# Searching an email for addresses

Whoever looks for `href="` or `src="` in an email, without reading its tags, finds no blocked
address: what is found is the value of such an attribute, or an authored value happens to end that
way and the closing quote makes it look like one. Behind that quote the tag goes on or ends.

* `not_isBlockedUrl_of_printAll`: what a search finds in printed tokens.
* `renderComponents_addresses`: the addresses of an email.
-/

namespace MailBlocks.Markup

open MergeField Text

/-! ## Quotes in printed tokens -/

section

variable {α : Type}

/-- An element that is not in the first of two lists. -/
theorem append_eq_append_cons_right {w r p q : List α} {c : α} (hw : c ∉ w)
    (h : w ++ r = p ++ c :: q) : ∃ p', p = w ++ p' ∧ r = p' ++ c :: q := by
  rcases List.append_eq_append_iff.1 h with ⟨s, hp, hs⟩ | ⟨s, hx, hs⟩
  · exact ⟨s, hp, hs⟩
  · cases s with
    | nil => exact ⟨[], by simpa using hx.symm, by simpa using hs.symm⟩
    | cons d s =>
      rw [List.cons_append, List.cons.injEq] at hs
      exact absurd (by rw [hx, hs.1]; simp) hw

/-- An element that is not in the second of two lists. -/
theorem append_eq_append_cons_left {w r p q : List α} {c : α} (hw : c ∉ w)
    (h : r ++ w = p ++ c :: q) : ∃ q', q = q' ++ w ∧ r = p ++ c :: q' := by
  rcases List.append_eq_append_iff.1 h with ⟨s, -, hs⟩ | ⟨s, hx, hs⟩
  · exact absurd (by rw [hs]; simp) hw
  · cases s with
    | nil => exact absurd (by rw [← List.nil_append w, ← hs]; simp) hw
    | cons d s =>
      rw [List.cons_append, List.cons.injEq] at hs
      obtain ⟨rfl, rfl⟩ := hs
      exact ⟨s, rfl, hx⟩

/-- A run without an element that the list has ends behind it. -/
theorem suffix_of_suffix_append_cons {k x y : List α} {c : α} (hk : c ∉ k)
    (h : k <:+ x ++ c :: y) : k <:+ y := by
  rcases List.suffix_or_suffix_of_suffix h (List.suffix_append x (c :: y)) with h | h
  · rcases List.suffix_cons_iff.1 h with rfl | h
    · exact absurd List.mem_cons_self hk
    · exact h
  · exact absurd (h.subset List.mem_cons_self) hk

end

/-- **What can follow a closing quote**: the end of the tag, or the name of a clean attribute with
its equals sign and opening quote. -/
def FollowsValue (s : List Char) : Prop :=
  (∃ r, s = '>' :: r) ∨ (∃ r, s = ' ' :: '/' :: r) ∨
    ∃ a : Attribute, a.Clean ∧ ∃ r, s = ' ' :: (a.name.toList ++ '=' :: '"' :: r)

/-- The quotes of a clean attribute: one in front of its value, one at its end. -/
theorem Attribute.Clean.quotes {a : Attribute} (h : a.Clean) {p q : List Char}
    (he : a.print.toList = p ++ '"' :: q) :
    (p = ' ' :: (a.name.toList ++ ['=']) ∧ q = a.value.toList ++ ['"']) ∨ q = [] := by
  have hv : '"' ∉ a.value.toList := h.inert_value.not_mem (by decide)
  have hprint : a.print.toList =
      ' ' :: (a.name.toList ++ ['=']) ++ '"' :: (a.value.toList ++ ['"']) := by
    rw [a.toList_print]
    simp
  rw [hprint] at he
  obtain ⟨p', rfl, hp⟩ := append_eq_append_cons_right h.word_name.quote_not_mem he
  cases p' with
  | nil =>
    rw [List.nil_append, List.cons.injEq] at hp
    exact .inl ⟨by simp, hp.2.symm⟩
  | cons c p' =>
    rw [List.cons_append, List.cons.injEq] at hp
    obtain ⟨p'', -, hq⟩ := append_eq_append_cons_right hv hp.2
    cases p'' with
    | nil => exact .inr (List.cons.inj hq).2.symm
    | cons d p'' => simp at hq

/-- What the attributes of a tag and what closes it are like behind a value. -/
theorem followsValue_printedAttributes {as : List Attribute} (h : ∀ a ∈ as, a.Clean)
    {e : List Char} (he : e = ['>'] ∨ e = [' ', '/', '>']) (r : List Char) :
    FollowsValue (printedAttributes as ++ (e ++ r)) := by
  cases as with
  | nil =>
    rcases he with rfl | rfl
    · exact .inl ⟨r, rfl⟩
    · exact .inr (.inl ⟨'>' :: r, rfl⟩)
  | cons a as =>
    refine .inr (.inr ⟨a, h a List.mem_cons_self, ?_⟩)
    rw [printedAttributes, List.flatMap_cons, a.toList_print]
    exact ⟨a.value.toList ++ '"' :: (printedAttributes as ++ (e ++ r)), by
      simp [printedAttributes]⟩

/-- The quotes of a tag: in front of the value of an attribute, or behind one. -/
theorem quotes_tag {n : String} {as : List Attribute} (hn : Word n) (h : ∀ a ∈ as, a.Clean)
    {e : List Char} (he : e = ['>'] ∨ e = [' ', '/', '>']) {p q : List Char}
    (heq : '<' :: n.toList ++ (printedAttributes as ++ e) = p ++ '"' :: q) :
    (∃ a ∈ as, ∃ p' q', p = p' ++ ' ' :: (a.name.toList ++ ['=']) ∧
      q = a.value.toList ++ '"' :: q') ∨ ∀ r, FollowsValue (q ++ r) := by
  have hname : '"' ∉ '<' :: n.toList := by
    simp [hn.not_mem (show ¬ isWordMark '"' by decide)]
  have hend : '"' ∉ e := by rcases he with rfl | rfl <;> decide
  obtain ⟨p₁, rfl, h₁⟩ := append_eq_append_cons_right hname heq
  obtain ⟨q₁, rfl, h₂⟩ := append_eq_append_cons_left hend h₁
  obtain ⟨as₁, a, as₂, p₂, q₂, has, ha, rfl, rfl⟩ := flatMap_eq_append_cons h₂
  have hmem : a ∈ as := by simp [has]
  -- the opening quote of an attribute, or the closing one
  rcases (h a hmem).quotes ha with ⟨rfl, rfl⟩ | rfl
  · refine .inl ⟨a, hmem, '<' :: n.toList ++ printedAttributes as₁,
      printedAttributes as₂ ++ e, ?_, ?_⟩
    · simp [printedAttributes]
    · simp [printedAttributes]
  · refine .inr fun r => ?_
    have hrest : ∀ b ∈ as₂, b.Clean := fun b hb => h b (by simp [has, hb])
    have hfollows := followsValue_printedAttributes hrest he r
    rw [List.nil_append, List.append_assoc]
    exact hfollows

/-- **The quotes of a clean token** stand in the declaration of the document, in front of the value
of an attribute, or behind one. -/
theorem Token.Clean.quotes {t : Token} (h : t.Clean) {p q : List Char}
    (he : t.print.toList = p ++ '"' :: q) :
    (∃ d, t = .doctype d) ∨
      (∃ a ∈ t.attributes, ∃ p' q', p = p' ++ ' ' :: (a.name.toList ++ ['=']) ∧
        q = a.value.toList ++ '"' :: q') ∨
      ∀ r, FollowsValue (q ++ r) := by
  have hnone : ∀ {s : List Char}, t.print.toList = s → '"' ∉ s → False := by
    intro s hs hq
    rw [← hs, he] at hq
    simp at hq
  cases t with
  | doctype d => exact .inl ⟨d, rfl⟩
  | start n as =>
    obtain ⟨⟨hn, -⟩, has⟩ := h
    have hprint : (Token.start n as).print.toList =
        '<' :: n.toList ++ (printedAttributes as ++ ['>']) := by
      simp [Token.print, printedAttributes, String.toList_append, String.toList_join,
        List.flatMap_map]
    exact .inr (quotes_tag hn has (.inl rfl) (hprint.symm.trans he))
  | empty n as =>
    obtain ⟨⟨hn, -⟩, has⟩ := h
    cases as with
    | nil =>
      refine (hnone (s := '<' :: (n.toList ++ ['/', '>'])) ?_ ?_).elim
      · simp [Token.print, String.toList_append]
      · simp [hn.not_mem (show ¬ isWordMark '"' by decide)]
    | cons a as =>
      have hprint : (Token.empty n (a :: as)).print.toList =
          '<' :: n.toList ++ (printedAttributes (a :: as) ++ [' ', '/', '>']) := by
        simp [Token.print, printedAttributes, String.toList_append, String.toList_join,
          List.flatMap_map]
      exact .inr (quotes_tag hn has (.inr rfl) (hprint.symm.trans he))
  | stop n =>
    refine (hnone (s := '<' :: '/' :: (n.toList ++ ['>'])) ?_ ?_).elim
    · simp [Token.print, String.toList_append]
    · simp [h.1.not_mem (show ¬ isWordMark '"' by decide)]
  | text s => exact (hnone rfl (Inert.not_mem h (by decide))).elim
  | lineBreak | legacyStart | legacyStop | modernStart | modernStop =>
    exact (hnone rfl (by decide)).elim

/-! ## What a search finds -/

/-- What stands up to the next double quote. -/
def upToQuote (s : List Char) : List Char := s.takeWhile (· ≠ '"')

/-- What is read as an address: the characters up to the next double quote, references read. -/
def addressAt (s : List Char) : String := String.ofList (decode (upToQuote s))

theorem upToQuote_append_cons {v : List Char} (h : '"' ∉ v) (r : List Char) :
    upToQuote (v ++ '"' :: r) = v :=
  takeWhile_ne_append_cons h r

/-- A text that begins like no scheme is not blocked. -/
theorem not_isBlockedUrl_of_head {c : Char} {s : List Char} (hb : ¬ isBlank c)
    (hc : ¬ isControl c) (hs : c.toLower ≠ 'j' ∧ c.toLower ≠ 'v' ∧ c.toLower ≠ 'd') :
    ¬ isBlockedUrl (String.ofList (c :: s)) := by
  simp [isBlockedUrl, schemeChars, lowerChars, hb, hc, List.isPrefixOf, Ne.symm hs.1,
    Ne.symm hs.2.1, Ne.symm hs.2.2]

theorem isBlockedUrl_blank (s : List Char) :
    isBlockedUrl (String.ofList (' ' :: s)) = isBlockedUrl (String.ofList s) := by
  have hblank : isBlank ' ' = true := by decide
  simp [isBlockedUrl, schemeChars, hblank]

theorem Attribute.Clean.not_isBlockedUrl_name {a : Attribute} (h : a.Clean) :
    ¬ isBlockedUrl (" " ++ a.name ++ "=") := by
  cases a with
  | plain n v => exact h.1.2.2.2
  | style ds => exact (by decide : ¬ isBlockedUrl " style=")

/-- **What follows a value is no blocked address.** -/
theorem FollowsValue.not_isBlockedUrl {s : List Char} (h : FollowsValue s) :
    ¬ isBlockedUrl (addressAt s) := by
  rcases h with ⟨r, rfl⟩ | ⟨r, rfl⟩ | ⟨a, ha, r, rfl⟩
  -- the end of a tag is no scheme, the end of an empty one neither, and of names it is assumed
  · have hup : upToQuote ('>' :: r) = '>' :: upToQuote r := rfl
    rw [addressAt, hup, decode_cons (by decide)]
    exact not_isBlockedUrl_of_head (by decide) (by decide) (by decide)
  · have hup : upToQuote (' ' :: '/' :: r) = ' ' :: '/' :: upToQuote r := rfl
    rw [addressAt, hup, decode_cons (by decide), decode_cons (by decide), isBlockedUrl_blank]
    exact not_isBlockedUrl_of_head (by decide) (by decide) (by decide)
  · have hname := ha.word_name
    have hamp : '&' ∉ ' ' :: (a.name.toList ++ ['=']) := by
      simp [hname.not_mem (show ¬ isWordMark '&' by decide)]
    have happ : ' ' :: (a.name.toList ++ '=' :: '"' :: r) =
        ' ' :: (a.name.toList ++ ['=']) ++ '"' :: r := by
      simp
    have hof : String.ofList (' ' :: (a.name.toList ++ ['='])) = " " ++ a.name ++ "=" := by
      apply String.toList_inj.1
      simp [String.toList_append]
    rw [addressAt, happ, upToQuote_append_cons hname.quote_not_mem, decode_eq_self hamp, hof]
    exact ha.not_isBlockedUrl_name

/-- A search for an attribute finds one whose name ends that way, and of the names of clean
attributes only the searched one does. -/
theorem Attribute.Clean.name_eq_of_suffix {a : Attribute} (h : a.Clean) {n : String}
    (hn : n ∈ addressNames) (hs : n.toList <:+ a.name.toList) : a.name = n := by
  cases a with
  | plain m v => exact h.1.2.2.1 n hn hs
  | style ds =>
    have hstyle : ∀ n ∈ addressNames, ¬ n.toList <:+ "style".toList := by decide
    exact absurd hs (hstyle n hn)

theorem mem_addresses {ts : List Token} {t : Token} {a : Attribute} (ht : t ∈ ts)
    (ha : a ∈ t.attributes) (hn : a.name ∈ addressNames) : (a.name, a.value) ∈ addresses ts := by
  refine List.mem_flatMap.2 ⟨t, ht, List.mem_filterMap.2 ⟨a, ha, ?_⟩⟩
  cases a with
  | plain n v => exact if_pos hn
  | style ds =>
    have hstyle : "style" ∉ addressNames := by decide
    exact absurd hn hstyle

theorem Token.Clean.attributes {t : Token} (h : t.Clean) : ∀ a ∈ t.attributes, a.Clean := by
  cases t with
  | start n as => exact h.2
  | empty n as => exact h.2
  | _ => simp [Token.attributes]

/-- No quote of a clean declaration of the document is one that a search finds. -/
theorem Token.Clean.not_suffix_doctype {d : String} (h : (Token.doctype d).Clean) {n : String}
    (hn : n ∈ addressNames) {p q : List Char}
    (he : (Token.doctype d).print.toList = p ++ '"' :: q) (x : List Char) :
    ¬ n.toList ++ ['='] <:+ x ++ p := by
  intro hsuffix
  obtain ⟨-, -, hoccurs⟩ := h
  have hblank : ∀ n ∈ addressNames, ' ' ∉ n.toList ++ ['='] := by decide
  have hprint : (Token.doctype d).print.toList =
      "<!DOCTYPE".toList ++ ' ' :: (d.toList ++ ['>']) := by
    simp [Token.print, String.toList_append]
  have hlead : '"' ∉ "<!DOCTYPE".toList := by decide
  obtain ⟨p₁, rfl, h₁⟩ := append_eq_append_cons_right hlead (hprint.symm.trans he)
  -- the blank keeps the search within the declaration
  cases p₁ with
  | nil => simp at h₁
  | cons c p₁ =>
    rw [List.cons_append, List.cons.injEq] at h₁
    obtain ⟨rfl, h₁⟩ := h₁
    obtain ⟨q₁, -, h₂⟩ := append_eq_append_cons_left (by decide : '"' ∉ ['>']) h₁
    rw [← List.append_assoc] at hsuffix
    obtain ⟨y, rfl⟩ := suffix_of_suffix_append_cons (hblank n hn) hsuffix
    refine hoccurs n hn (occurs_iff.2 ⟨y, q₁, ?_⟩)
    rw [h₂]
    simp [String.toList_append]

/-- **What a search for addresses finds in clean tokens** is an address of them, or what follows a
value. So none is blocked if none of the addresses is. -/
theorem not_isBlockedUrl_of_printAll {ts : List Token} (h : ∀ t ∈ ts, t.Clean)
    (hsafe : ∀ a ∈ addresses ts, ¬ isBlockedUrl (String.ofList (decode a.2.toList))) {n : String}
    (hn : n ∈ addressNames) {before after : List Char}
    (he : (printAll ts).toList = before ++ (n ++ "=\"").toList ++ after) :
    ¬ isBlockedUrl (addressAt after) := by
  have hblank : ∀ n ∈ addressNames, ' ' ∉ n.toList ++ ['='] := by decide
  -- the quote that was found is in some token
  have hquote : ts.flatMap (fun t => t.print.toList) =
      (before ++ (n.toList ++ ['='])) ++ '"' :: after := by
    rw [← toList_printAll, he]
    simp [String.toList_append]
  obtain ⟨ts₁, t, ts₂, p, q, hts, ht, hp, hq⟩ := flatMap_eq_append_cons hquote
  have hmem : t ∈ ts := by simp [hts]
  have hclean : t.Clean := h t hmem
  have hsuffix : n.toList ++ ['='] <:+ ts₁.flatMap (fun t => t.print.toList) ++ p := by
    rw [← hp]
    exact List.suffix_append _ _
  -- a quote of the declaration, the one in front of a value, or the one behind
  rcases hclean.quotes ht with ⟨d, rfl⟩ | ⟨a, ha, p', q', hp', hq'⟩ | hfollows
  · exact absurd hsuffix (hclean.not_suffix_doctype hn ht _)
  · have hattribute : a.Clean := hclean.attributes a ha
    rw [hp', ← List.append_assoc] at hsuffix
    have hname : n.toList <:+ a.name.toList :=
      List.suffix_append_self_iff.1 (suffix_of_suffix_append_cons (hblank n hn) hsuffix)
    have heq : a.name = n := hattribute.name_eq_of_suffix hn hname
    have hvalue : '"' ∉ a.value.toList := hattribute.inert_value.not_mem (by decide)
    have haddress : (a.name, a.value) ∈ addresses ts :=
      mem_addresses hmem ha (by rwa [heq])
    rw [addressAt, hq, hq', List.append_assoc, List.cons_append, upToQuote_append_cons hvalue]
    exact hsafe (a.name, a.value) haddress
  · rw [hq]
    exact (hfollows _).not_isBlockedUrl

/-- **What is written for an address** is `#`, or the address without the blanks around it. -/
theorem urlAttribute_cases (u : String) :
    urlAttribute u = "#" ∨
      (¬ isBlockedUrl (trim u) ∧ decode (urlAttribute u).toList = (trim u).toList) := by
  have hurl : urlAttribute u = if isBlockedUrl (trim u) then "#" else attributeValue (trim u) := rfl
  by_cases h : isBlockedUrl (trim u)
  · rw [if_pos h] at hurl
    exact .inl hurl
  · rw [if_neg h] at hurl
    rw [hurl, attributeValue_eq_elementContent, decode_elementContent]
    exact .inr ⟨h, rfl⟩

theorem not_isBlockedUrl_urlAttribute (u : String) :
    ¬ isBlockedUrl (String.ofList (decode (urlAttribute u).toList)) := by
  rcases urlAttribute_cases u with h | ⟨h, hd⟩
  · rw [h]
    decide
  · rwa [hd, String.ofList_toList]

end MailBlocks.Markup

namespace MailBlocks.Email

open Markup Text

variable (d : Document) (s : DesignSettings)

theorem addresses_headLines : addresses headLines = [] := by
  simp [headLines, metaLine, mem_addressNames]

/-- The shell of an email has no addresses. -/
theorem addresses_shell (theme : Theme) (rows : List Token) :
    addresses (shell theme rows) = addresses rows := by
  have hopening : addresses (openingLines theme) = [] := by simp [openingLines, mem_addressNames]
  have hclosing : addresses closingLines = [] := by simp [closingLines]
  have hrows : addresses (if rows.isEmpty then emptyRow theme else rows) = addresses rows := by
    by_cases h : rows = []
    · simp [h, emptyRow]
    · rw [if_neg (by simpa using h)]
  simp only [shell, addresses_append, addresses_headLines, hopening, hclosing, hrows,
    List.nil_append, List.append_nil]

theorem addresses_tokens : addresses (tokens d s) =
    (d.blocks.flatMap fun b => b.content.addresses).map Address.written := by
  have hrows : tokens d s = shell (Theme.ofSettings s)
      (d.blocks.flatMap fun b => rowsOf (Theme.ofSettings s) b.content) := rfl
  rw [hrows, addresses_shell, addresses_flatMap, List.map_flatMap]
  simp only [addresses_rowsOf]

/-- **The addresses that a reader of the email finds** are those that the blocks show, written. -/
theorem addressesOf_render :
    addressesOf (render d s) =
      (d.blocks.flatMap fun b => b.content.addresses).map Address.written := by
  rw [render, addressesOf_printAll (allClean_tokens d s), addresses_tokens]

/-- **No blocked address is in an email**: not behind anything that looks like the attribute of an
address, and every such attribute holds `#` or an address that the bag of a component, or that of
new content of its kind, has under a key for addresses. -/
theorem renderComponents_addresses (fresh : Nat → FreshIds) (cs : List Component)
    (s : DesignSettings) :
    (∀ n ∈ addressNames, ∀ before after,
      (renderComponents fresh cs s).toList = before ++ (n ++ "=\"").toList ++ after →
        ¬ isBlockedUrl (addressAt after)) ∧
    (addressesOf (renderComponents fresh cs s) =
      ((Document.ofComponents fresh cs).blocks.flatMap fun b => b.content.addresses).map
        fun a => (a.name, urlAttribute a.url)) ∧
    (∀ c ∈ cs, ∀ ids, ∀ a ∈ (Block.ofComponent ids c).content.addresses,
      (c.data.get? a.key).or ((newAttributes c.type).get? a.key) = some a.url ∧
        (urlAttribute a.url = "#" ∨
          decode (urlAttribute a.url).toList = (trim a.url).toList)) := by
  refine ⟨?_, addressesOf_render _ s, ?_⟩
  · intro n hn before after h
    have hprint : (printAll (tokens (.ofComponents fresh cs) s)).toList =
        before ++ (n ++ "=\"").toList ++ after := h
    refine not_isBlockedUrl_of_printAll (allClean_tokens _ s) ?_ hn hprint
    intro a ha
    rw [addresses_tokens] at ha
    obtain ⟨b, -, hb⟩ := List.mem_map.1 ha
    have hwritten : a.2 = urlAttribute b.url := by rw [← hb, Address.written]
    rw [hwritten]
    exact not_isBlockedUrl_urlAttribute b.url
  · intro c _ ids a ha
    refine ⟨get?_or_newAttributes ids c.type c.data ha, ?_⟩
    exact (urlAttribute_cases a.url).imp_right And.right

end MailBlocks.Email
