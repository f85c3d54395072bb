import MailBlocks.Proofs.AddressSearch
import MailBlocks.Proofs.OfferIdentities
import MailBlocks.Proofs.Reports
import MailBlocks.Proofs.StoredOffers

/-!
# Silent recoveries and their reports

An email is built of any components: a block of an unknown kind shows nothing, a list of additional
offers that cannot be read counts as empty, and a blocked address is written as `#`. The rules look
at stored bags under keys of their own list, while emails are built of typed blocks with defaults,
and still no recovery goes without a report.

* `ShownInFull`: a component of which nothing is dropped or replaced.
* `shownInFull_of_check`: what the rules do not object to is shown in full.
* `check_recoveries`: this, and what stands behind each report.
-/

namespace MailBlocks

open Markup Text

/-! ## Blocked addresses -/

namespace Markup

/-- The blanks around an address do not count for its scheme. -/
theorem schemeChars_trim (u : String) : schemeChars (trim u) = schemeChars u := by
  obtain ⟨before, behind, hu, hbefore, hbehind⟩ := MergeField.trimBlank_append u.toList
  have hnone : ∀ {cs : List Char}, (∀ c ∈ cs, isBlank c) →
      cs.filter (fun c => !isBlank c && !isControl c) = [] := by
    intro cs hcs
    refine List.filter_eq_nil_iff.2 fun c hc => ?_
    simp [hcs c hc]
  have hfilter : u.toList.filter (fun c => !isBlank c && !isControl c) =
      (trimBlank u.toList).filter fun c => !isBlank c && !isControl c := by
    conv_lhs => rw [hu]
    rw [List.filter_append, List.filter_append, hnone hbefore, hnone hbehind, List.nil_append,
      List.append_nil]
  rw [schemeChars, schemeChars, hfilter, trim, String.toList_ofList]

theorem isBlockedUrl_trim (u : String) : isBlockedUrl (trim u) = isBlockedUrl u := by
  rw [isBlockedUrl, isBlockedUrl, schemeChars_trim]

theorem urlAttribute_eq (u : String) :
    urlAttribute u = if isBlockedUrl u then "#" else attributeValue (trim u) := by
  have hurl : urlAttribute u = if isBlockedUrl (trim u) then "#" else attributeValue (trim u) := rfl
  rw [hurl, isBlockedUrl_trim]

end Markup

/-- The keys of all addresses that a block shows are among those that the rule on addresses looks
at. -/
theorem Content.key_mem_urlKeys {c : Content} {a : Address} (h : a ∈ c.addresses) :
    a.key ∈ Lint.urlKeys := by
  cases c with
  | image b => rcases ImageBlock.mem_addresses h with rfl | rfl <;> simp [Lint.urlKeys]
  | button b =>
    obtain rfl := ButtonBlock.mem_addresses h
    simp [Lint.urlKeys]
  | serviceOffer o => rcases ServiceOffer.mem_addresses h with rfl | rfl <;> simp [Lint.urlKeys]
  | salesOffer o => rcases SalesOffer.mem_addresses h with rfl | rfl | rfl <;> simp [Lint.urlKeys]
  | header | textBlock | divider | spacer | unknown => cases h

/-- The addresses of new content are not blocked. -/
theorem not_isBlockedUrl_of_newAttributes {type key url : String} (hkey : key ∈ Lint.urlKeys)
    (h : (newAttributes type).get? key = some url) : ¬ isBlockedUrl url := by
  have hnew : ∀ {α : Type} {slots : Slots α} {a : α},
      (∀ s ∈ slots, s.key ∈ Lint.urlKeys → ¬ isBlockedUrl (s.store a)) →
      (slots.write a).get? key = some url → ¬ isBlockedUrl url := by
    intro α slots a hsafe hurl
    obtain ⟨s, hs, rfl, rfl⟩ := Slots.exists_of_get?_write hurl
    exact hsafe s hs hkey
  unfold newAttributes at h
  cases hk : Kind.ofName? type with
  | none => simp [hk] at h
  | some k =>
    rw [hk] at h
    cases k <;> exact hnew (by decide +kernel) h

/-! ## Kinds of content -/

variable {fresh : FreshIds} {c : Component}

theorem content_of_kind?_eq_none (h : c.kind? = none) :
    (Block.ofComponent fresh c).content = .unknown c.type := by
  have hkind : Kind.ofName? c.type = none := h
  simp only [Block.ofComponent, Content.ofBag, hkind]

theorem content_of_kind?_eq_some {k : Kind} (h : c.kind? = some k) :
    (Block.ofComponent fresh c).content = .ofKind fresh c.data k := by
  have hkind : Kind.ofName? c.type = some k := h
  simp only [Block.ofComponent, Content.ofBag, hkind]

/-- The content of a component of a known kind is not unknown. -/
theorem kind?_eq_none_of_content {name : String}
    (h : (Block.ofComponent fresh c).content = .unknown name) : c.kind? = none := by
  cases hk : c.kind? with
  | none => rfl
  | some k =>
    rw [content_of_kind?_eq_some hk] at h
    cases k <;> cases h

/-- Sales offers are read off bags of that kind. -/
theorem salesOffer_of_content {o : SalesOffer}
    (h : (Block.ofComponent fresh c).content = .salesOffer o) :
    c.kind? = some .salesOffer ∧ o = (SalesOffer.slots fresh).read c.data .new := by
  cases hk : c.kind? with
  | none =>
    rw [content_of_kind?_eq_none hk] at h
    cases h
  | some k =>
    rw [content_of_kind?_eq_some hk] at h
    cases k <;> cases h
    exact ⟨rfl, rfl⟩

/-! ## Additional offers -/

namespace AdditionalOffer

/-- Whether a stored list is refused does not depend on the identities that are drawn. -/
theorem decode_eq_error_iff (fresh other : FreshIds) (stored : String) (e : Json.Error) :
    decode fresh stored = .error e ↔ decode other stored = .error e := by
  unfold decode
  split
  · rfl
  · cases listDecoder.parse stored <;> simp [Except.map]

end AdditionalOffer

namespace SalesOffer

/-- Only one attribute of a sales offer has its additional offers. -/
theorem load_of_key_eq {s : Slot SalesOffer} (hs : s ∈ slots fresh)
    (hkey : s.key = "additionalOffers") (o : SalesOffer) (text : String) :
    s.load o text =
      { o with additional := (AdditionalOffer.decode fresh text).toOption.getD [] } := by
  -- all other slots have other keys
  revert s
  simp [slots, OfferLine.slots, LineStyle.slots, OfferButton.slots, Slot.of, Slot.within,
    additionalScalar]

/-- A list that cannot be read counts as empty. -/
theorem read_insert_additionalOffers {b : Bag} {stored : String} {e : Json.Error}
    (hstored : b.get? "additionalOffers" = some stored)
    (he : AdditionalOffer.decode fresh stored = .error e) (start : SalesOffer) :
    (slots fresh).read (b.insert "additionalOffers" "[]") start = (slots fresh).read b start := by
  have hempty : AdditionalOffer.decode fresh "[]" = .ok [] := AdditionalOffer.decode_encode fresh []
  refine List.foldl_ext _ _ _ fun o s hs => ?_
  unfold Slot.readFrom
  by_cases hkey : s.key = "additionalOffers"
  · have hload := load_of_key_eq hs hkey
    rw [hkey, Bag.get?_insert_self, hstored]
    simp only [hload, hempty, he]
    rfl
  · rw [Bag.get?_insert_of_ne _ _ (Ne.symm hkey)]

/-- **The offers are all that a bag stores**: it has no list, or its list is read, with an offer for
each stored one, in their order. -/
def AllStored (fresh : FreshIds) (b : Bag) (offers : List AdditionalOffer) : Prop :=
  (b.get? "additionalOffers" = none ∧ offers = []) ∨
    ∃ stored entries, b.get? "additionalOffers" = some stored ∧
      AdditionalOffer.decode fresh stored = .ok offers ∧ AdditionalOffer.Stores stored entries ∧
      offers = entries.mapIdx fun i members => .ofMembers (fresh i) members

/-- The offers of a bag whose list is not refused are all that it stores. -/
theorem allStored_read {b : Bag}
    (h : ∀ stored e, b.get? "additionalOffers" = some stored →
      AdditionalOffer.decode fresh stored ≠ .error e) :
    AllStored fresh b ((slots fresh).read b .new).additional := by
  have hread : ((slots fresh).read b .new).additional =
      b.read (additionalScalar fresh) "additionalOffers" [] := by
    rw [read_slots]
    rfl
  cases hstored : b.get? "additionalOffers" with
  | none =>
    rw [hread, Bag.read, hstored]
    exact .inl ⟨hstored, rfl⟩
  | some stored =>
    cases hdecode : AdditionalOffer.decode fresh stored with
    | error e => exact absurd hdecode (h stored e hstored)
    | ok offers =>
      obtain ⟨entries, hentries, hoffers⟩ := AdditionalOffer.stored_of_decode hdecode
      have hadditional : (additionalScalar fresh).read [] stored = offers := by
        simp [additionalScalar, hdecode, Except.toOption]
      rw [hread, Bag.read, hstored]
      dsimp only
      rw [hadditional]
      exact .inr ⟨stored, entries, hstored, hdecode, hentries, hoffers⟩

end SalesOffer

/-! ## Fragments -/

/-- What a component comes to in an email. -/
def fragment (settings : DesignSettings) (fresh : FreshIds) (c : Component) : String :=
  printAll (Email.rowsOf (Email.Theme.ofSettings settings) (Block.ofComponent fresh c).content)

theorem fragment_fresh (settings : DesignSettings) (fresh other : FreshIds) (c : Component) :
    fragment settings fresh c = fragment settings other c := by
  have hcontent : (Block.ofComponent fresh c).content.anonymous =
      (Block.ofComponent other c).content.anonymous :=
    Content.anonymous_ofBag fresh other c.type c.data
  rw [fragment, fragment, ← Email.rowsOf_anonymous, hcontent, Email.rowsOf_anonymous]

/-- The addresses of a fragment are those of its content, written. -/
theorem addressesOf_fragment (settings : DesignSettings) :
    addressesOf (fragment settings fresh c) =
      (Block.ofComponent fresh c).content.addresses.map Address.written := by
  have hfont : Contained (Email.Theme.ofSettings settings).font := contained_styleValue _
  have hclean := Email.allClean_rowsOf hfont (Block.ofComponent fresh c).content
  rw [fragment, addressesOf_printAll hclean, Email.addresses_rowsOf]

/-! ## Reports of recoveries -/

/-- The names of the rules on recoveries. -/
def recoveries : List String := ["unknown_type", "additional_offers", "unsafe_url"]

/-- **A component that is shown in full**: its kind is known, every additional offer that it stores
is read, and each of its addresses is written trimmed and escaped, as it was authored or as new
content has it. -/
structure ShownInFull (settings : DesignSettings) (fresh : FreshIds) (c : Component) : Prop where
  known : ∀ name, (Block.ofComponent fresh c).content ≠ .unknown name
  offers : ∀ o, (Block.ofComponent fresh c).content = .salesOffer o →
    SalesOffer.AllStored fresh c.data o.additional
  written : addressesOf (fragment settings fresh c) =
    (Block.ofComponent fresh c).content.addresses.map
      fun a => (a.name, attributeValue (trim a.url))
  authored : ∀ a ∈ (Block.ofComponent fresh c).content.addresses,
    (c.data.get? a.key).or ((newAttributes c.type).get? a.key) = some a.url ∧
      ¬ isBlockedUrl (trim a.url) ∧
      decode (attributeValue (trim a.url)).toList = (trim a.url).toList

variable {mode : Lint.Mode} {p : Project}

/-- The additional offers of a component on which their rule reports nothing. -/
theorem allStored_of_not_mem (h : ∀ v, v ∉ Lint.additionalOffers [c]) {o : SalesOffer}
    (ho : (Block.ofComponent fresh c).content = .salesOffer o) :
    SalesOffer.AllStored fresh c.data o.additional := by
  obtain ⟨hkind, rfl⟩ := salesOffer_of_content ho
  refine SalesOffer.allStored_read fun stored e hstored he => ?_
  rw [AdditionalOffer.decode_eq_error_iff fresh fun _ => default] at he
  exact h _ (Lint.mem_additionalOffers_iff.2
    ⟨c, List.mem_singleton_self c, hkind, stored, e, hstored, he, rfl⟩)

/-- The addresses of a component on which their rule reports nothing are not blocked. -/
theorem not_isBlockedUrl_of_not_mem (h : ∀ v, v ∉ Lint.blockedUrl [c]) {a : Address}
    (ha : a ∈ (Block.ofComponent fresh c).content.addresses) : ¬ isBlockedUrl a.url := by
  have hkey := Content.key_mem_urlKeys ha
  have hurl := get?_or_newAttributes fresh c.type c.data ha
  cases htext : c.data.get? a.key with
  | none =>
    rw [htext, Option.none_or] at hurl
    exact not_isBlockedUrl_of_newAttributes hkey hurl
  | some url =>
    rw [htext, Option.some_or] at hurl
    obtain rfl := Option.some.inj hurl
    exact fun hblocked => h _ (Lint.mem_blockedUrl_iff.2
      ⟨c, List.mem_singleton_self c, a.key, hkey, a.url, htext, hblocked, rfl⟩)

/-- **A component to which the rules on recoveries do not object is shown in full.** -/
theorem shownInFull_of_check {c : Component} (hc : c ∈ p.components)
    (h : ∀ v ∈ (Lint.check mode p).violations, v.IsOf c → v.rule ∉ recoveries)
    (settings : DesignSettings) (fresh : FreshIds) : ShownInFull settings fresh c := by
  -- without a violation of the component in the report, there is none on it alone
  have hsilent : ∀ r ∈ Lint.named.tail, r.2.1 ∈ recoveries → ∀ v, v ∉ r.1 [c] := by
    intro r hr hname
    exact Lint.not_mem_singleton_of_check mode hr hc
      fun v hv hof heq => h v hv hof (heq ▸ hname)
  have hunknown : ∀ v, v ∉ Lint.unknownType [c] :=
    hsilent _ Lint.unknownType_mem_named (by decide)
  have hoffers : ∀ v, v ∉ Lint.additionalOffers [c] :=
    hsilent _ Lint.additionalOffers_mem_named (by decide)
  have hurls : ∀ v, v ∉ Lint.blockedUrl [c] :=
    hsilent _ Lint.blockedUrl_mem_named (by decide)
  have hsafe : ∀ a ∈ (Block.ofComponent fresh c).content.addresses, ¬ isBlockedUrl a.url :=
    fun a ha => not_isBlockedUrl_of_not_mem hurls ha
  refine ⟨?_, ?_, ?_, ?_⟩
  · intro name hname
    exact hunknown _ (Lint.mem_unknownType_iff.2
      ⟨c, List.mem_singleton_self c, kind?_eq_none_of_content hname, rfl⟩)
  · exact fun o ho => allStored_of_not_mem hoffers ho
  · rw [addressesOf_fragment]
    refine List.map_congr_left fun a ha => ?_
    rw [Address.written, urlAttribute_eq, if_neg (hsafe a ha)]
  · intro a ha
    refine ⟨get?_or_newAttributes fresh c.type c.data ha, ?_, ?_⟩
    · rw [isBlockedUrl_trim]
      exact hsafe a ha
    · rw [attributeValue_eq_elementContent, decode_elementContent]

/-- A component of an unknown kind shows nothing. -/
theorem fragment_of_mem_unknownType {v : Lint.Violation} (hv : v ∈ Lint.unknownType [c])
    (settings : DesignSettings) : fragment settings fresh c = "" := by
  obtain ⟨d, hd, hkind, -⟩ := Lint.mem_unknownType_iff.1 hv
  obtain rfl := List.mem_singleton.1 hd
  rw [fragment, content_of_kind?_eq_none hkind]
  rfl

/-- A sales offer whose list is refused is shown as one with an empty list. -/
theorem fragment_of_mem_additionalOffers {v : Lint.Violation} (hv : v ∈ Lint.additionalOffers [c])
    (settings : DesignSettings) (other : FreshIds) :
    c.data.contains "additionalOffers" = true ∧
      fragment settings fresh c = fragment settings other (c.set "additionalOffers" "[]") := by
  obtain ⟨d, hd, hkind, stored, e, hstored, he, -⟩ := Lint.mem_additionalOffers_iff.1 hv
  obtain rfl := List.mem_singleton.1 hd
  have hkind' : (d.set "additionalOffers" "[]").kind? = some .salesOffer := hkind
  rw [AdditionalOffer.decode_eq_error_iff _ fresh] at he
  refine ⟨by rw [Bag.contains, hstored]; rfl, ?_⟩
  rw [fragment_fresh settings other fresh, fragment, fragment, content_of_kind?_eq_some hkind,
    content_of_kind?_eq_some hkind']
  simp only [Content.ofKind, Component.set, SalesOffer.read_insert_additionalOffers hstored he]

/-- An address that is objected to is stored under a key for addresses, and written as `#`. -/
theorem urlAttribute_of_mem_blockedUrl {v : Lint.Violation} (hv : v ∈ Lint.blockedUrl [c]) :
    ∃ key ∈ Lint.urlKeys, ∃ url, c.data.get? key = some url ∧ v.actual = some url ∧
      urlAttribute url = "#" := by
  obtain ⟨d, hd, key, hkey, url, htext, hblocked, rfl⟩ := Lint.mem_blockedUrl_iff.1 hv
  obtain rfl := List.mem_singleton.1 hd
  exact ⟨key, hkey, url, htext, rfl, by rw [urlAttribute_eq, if_pos hblocked]⟩

/-- **Every silent recovery is reported, and every report is of one.** A component of which the
report has no violation of the rules on recoveries is shown in full. A violation of one of these
rules names a component that shows nothing, or that shows what it would with an empty list of
additional offers, or that stores an address for which `#` would be written. -/
theorem check_recoveries (mode : Lint.Mode) (p : Project) (fresh other : FreshIds) :
    (∀ c ∈ p.components,
      (∀ v ∈ (Lint.check mode p).violations, v.IsOf c → v.rule ∉ recoveries) →
        ShownInFull p.settings fresh c) ∧
    ∀ v ∈ (Lint.check mode p).violations,
      (v.rule = "unknown_type" → ∃ c ∈ p.components, v.IsOf c ∧ v.component = some c.id ∧
        fragment p.settings fresh c = "") ∧
      (v.rule = "additional_offers" → ∃ c ∈ p.components, v.IsOf c ∧ v.component = some c.id ∧
        c.data.contains "additionalOffers" = true ∧
        fragment p.settings fresh c =
          fragment p.settings other (c.set "additionalOffers" "[]")) ∧
      (v.rule = "unsafe_url" → ∃ c ∈ p.components, v.IsOf c ∧ v.component = some c.id ∧
        ∃ key ∈ Lint.urlKeys, ∃ url, c.data.get? key = some url ∧ v.actual = some url ∧
          urlAttribute url = "#") := by
  refine ⟨fun c hc h => shownInFull_of_check hc h p.settings fresh,
    fun v hv => ⟨fun hname => ?_, fun hname => ?_, fun hname => ?_⟩⟩
  · obtain ⟨c, hc, hisOf, hmem⟩ := Lint.exists_isOf_of_mem_check Lint.unknownType_mem_named hv hname
    exact ⟨c, hc, hisOf, hisOf.component, fragment_of_mem_unknownType hmem p.settings⟩
  · obtain ⟨c, hc, hisOf, hmem⟩ :=
      Lint.exists_isOf_of_mem_check Lint.additionalOffers_mem_named hv hname
    exact ⟨c, hc, hisOf, hisOf.component,
      fragment_of_mem_additionalOffers hmem p.settings other⟩
  · obtain ⟨c, hc, hisOf, hmem⟩ := Lint.exists_isOf_of_mem_check Lint.blockedUrl_mem_named hv hname
    exact ⟨c, hc, hisOf, hisOf.component, urlAttribute_of_mem_blockedUrl hmem⟩

/-- An image, and three components of which something is dropped or replaced. -/
def recovering : Project :=
  .new .standard
    [⟨"1", "image", ∅⟩, ⟨"2", "chart", ∅⟩,
      ⟨"3", "sales_offer", .ofList [("additionalOffers", "[")]⟩,
      ⟨"4", "button", .ofList [("link", " JavaScript:go()")]⟩]

/-- The image is shown in full, and the others are named. -/
theorem check_recoveries_recovering :
    ShownInFull .standard (fun _ => default) ⟨"1", "image", ∅⟩ ∧
    (∃ c ∈ recovering.components, c.id = "2" ∧ fragment .standard (fun _ => default) c = "") ∧
    (∃ c ∈ recovering.components, c.id = "3" ∧ fragment .standard (fun _ => default) c =
      fragment .standard (fun _ => default) (c.set "additionalOffers" "[]")) ∧
    ∃ c ∈ recovering.components, c.id = "4" ∧ ∃ key ∈ Lint.urlKeys, ∃ url,
      c.data.get? key = some url ∧ urlAttribute url = "#" := by
  obtain ⟨hshown, hnamed⟩ :=
    check_recoveries .warn recovering (fun _ => default) (fun _ => default)
  have hreport : ∀ x ∈ [("unknown_type", "2"), ("additional_offers", "3"), ("unsafe_url", "4")],
      ∃ v ∈ (Lint.check .warn recovering).violations, v.rule = x.1 ∧ v.component = some x.2 := by
    decide +kernel
  have hquiet : ∀ v ∈ (Lint.check .warn recovering).violations,
      v.component = some "1" → v.rule ∉ recoveries := by
    decide +kernel
  refine ⟨hshown _ (by decide) fun v hv hof => hquiet v hv hof.component, ?_, ?_, ?_⟩
  · obtain ⟨v, hv, hrule, hid⟩ := hreport ("unknown_type", "2") (by simp)
    obtain ⟨c, hc, -, hc', hempty⟩ := (hnamed v hv).1 hrule
    exact ⟨c, hc, Option.some.inj (hc'.symm.trans hid), hempty⟩
  · obtain ⟨v, hv, hrule, hid⟩ := hreport ("additional_offers", "3") (by simp)
    obtain ⟨c, hc, -, hc', -, hsame⟩ := (hnamed v hv).2.1 hrule
    exact ⟨c, hc, Option.some.inj (hc'.symm.trans hid), hsame⟩
  · obtain ⟨v, hv, hrule, hid⟩ := hreport ("unsafe_url", "4") (by simp)
    obtain ⟨c, hc, -, hc', key, hkey, url, hurl, -, hsign⟩ := (hnamed v hv).2.2 hrule
    exact ⟨c, hc, Option.some.inj (hc'.symm.trans hid), key, hkey, url, hurl, hsign⟩

end MailBlocks
