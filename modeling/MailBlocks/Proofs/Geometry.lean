import Mathlib.Algebra.Order.Ring.Nat
import Mathlib.Tactic.Ring
import MailBlocks.Proofs.DefaultAttributes
import MailBlocks.Proofs.DividerLengths
import MailBlocks.Proofs.RoundedNumbers

/-!
# Exact geometry

Heights and corners of drawn shapes are worked out in binary floating point, and widths of images in
32-bit numbers. Both give the whole numbers that the same formulas give on the naturals.

* `shapeHeight_eq`: the height of a shape.
* `arcOfRadius_eq`: its corners, with the radius of a style.
* `toNat_imagePixels`: the width of an image.
* `geometry_exact`: all three, as they are written.
-/

namespace MailBlocks

open Markup Number

namespace Email

/-! ## Heights -/

/-- **The height of a shape** is the exact one, for all numbers of 32 bits. -/
theorem shapeHeight_eq (top bottom size : UInt32) :
    shapeHeight top bottom size =
      min 0xFFFFFFFF ((13 * (top.toNat + bottom.toNat + size.toNat) + 5) / 10) := by
  have htop := top.toNat_lt
  have hbottom := bottom.toNat_lt
  have hsize := size.toNat_lt
  have hsum : ((Binary64.ofNat top.toNat).add (.ofNat bottom.toNat)).add (.ofNat size.toNat) =
      .ofNat (top.toNat + bottom.toNat + size.toNat) := by
    rw [Binary64.add_ofNat (by omega) (by omega), Binary64.add_ofNat (by omega) (by omega)]
  simp only [shapeHeight]
  rw [hsum, Binary64.nearest_mul_thirteen_tenths (by omega), Nat.min_comm]
  rfl

/-! ## Corners -/

/-- The percentage that a radius is of half a height, a half going up, at most 50. -/
def exactArc (radius height : Nat) : Nat :=
  min 50 ((400 * radius + height) / (2 * height))

/-- A higher shape has corners of a lower percentage. -/
theorem exactArc_antitone (r : Nat) {h h' : Nat} (hpos : 0 < h) (hle : h ≤ h') :
    exactArc r h' ≤ exactArc r h := by
  refine min_le_min_left 50 ?_
  obtain ⟨k, hk⟩ : ∃ k, k = (400 * r + h') / (2 * h') := ⟨_, rfl⟩
  have hbelow : k * (2 * h') ≤ 400 * r + h' := hk ▸ Nat.div_mul_le_self _ _
  rw [← hk, Nat.le_div_iff_mul_le (by omega)]
  cases k with
  | zero => omega
  | succ k =>
    have hodd : (2 * k + 1) * h ≤ (2 * k + 1) * h' := Nat.mul_le_mul_left _ hle
    calc (k + 1) * (2 * h) = (2 * k + 1) * h + h := by ring
      _ ≤ 400 * r + h := by
        have hexpand : (k + 1) * (2 * h') = (2 * k + 1) * h' + h' := by ring
        omega

theorem arcOfRadius_eq_min (radius : Binary64) (h : Nat) :
    arcOfRadius radius h = min 50 (Binary64.percentOfHalf radius h).nearest := by
  change (if 50 * Binary64.oneUnits < (Binary64.percentOfHalf radius h).units then 50
    else (Binary64.percentOfHalf radius h).nearest) = _
  generalize Binary64.percentOfHalf radius h = percent
  have hone := Binary64.oneUnits_pos
  split
  · next habove =>
    refine (min_eq_left (Binary64.le_nearest_iff.2 ?_)).symm
    generalize Binary64.oneUnits = one at *
    omega
  · next hbelow =>
    refine (min_eq_right (Nat.le_of_lt_succ (Binary64.nearest_lt_iff.2 ?_))).symm
    generalize Binary64.oneUnits = one at *
    omega

/-- **The corners of a shape** with the radius of a style are the exact ones. -/
theorem arcOfRadius_eq {r h : Nat} {radius : Binary64}
    (hradius : radius.units = r * Binary64.oneUnits) (hr : r ∈ [0, 8, 50]) (hh : 0 < h)
    (hlt : h < 2 ^ 32) : arcOfRadius radius h = exactArc r h := by
  have hle : r ≤ 50 := by
    simp only [List.mem_cons, List.not_mem_nil, or_false] at hr
    omega
  rw [arcOfRadius_eq_min]
  have hmost := Binary64.nearest_percentOfHalf_le hradius hle hh hlt
  refine Nat.le_antisymm (min_le_min_left 50 hmost) ?_
  rw [exactArc]
  obtain ⟨k, hk⟩ : ∃ k, k = min 50 ((400 * r + h) / (2 * h)) := ⟨_, rfl⟩
  rw [← hk]
  have hk50 : k ≤ 50 := hk ▸ Nat.min_le_left _ _
  have hbelow : 2 * k * h ≤ 400 * r + h := by
    calc 2 * k * h = k * (2 * h) := by ring
      _ ≤ (400 * r + h) / (2 * h) * (2 * h) :=
        Nat.mul_le_mul_right _ (hk ▸ Nat.min_le_right _ _)
      _ ≤ 400 * r + h := Nat.div_mul_le_self _ _
  refine Nat.le_min.2 ⟨hk50, ?_⟩
  rcases Nat.lt_or_eq_of_le hbelow with hlt' | heq
  · exact Binary64.le_nearest_percentOfHalf hradius hle hh hlt hlt'
  · exact Binary64.le_nearest_of_half hradius hr hh hk50 heq

/-- A radius in pixels is read as its number. -/
theorem arcSize_pixels {r h : Nat} (hr : r ∈ [0, 8, 50]) (hh : 0 < h) (hlt : h < 2 ^ 32) :
    arcSize (pxNat r) h = exactArc r h := by
  have hread : ∀ r ∈ [0, 8, 50], r < 2 ^ 53 ∧
      (Text.dropTail "px".toList (Text.trimBlank (pxNat r).toList)).bind
        (fun cs => Numeral.ofChars? (Text.trimBlank cs)) = some (.finite false r 0) := by
    decide
  obtain ⟨hsmall, hpixels⟩ := hread r hr
  obtain ⟨radius, hmagnitude, hunits⟩ := Numeral.signedMagnitude?_finite hsmall
  unfold arcSize
  rw [hpixels]
  simp only [hmagnitude, Nat.ne_of_gt hh, if_false]
  exact arcOfRadius_eq hunits hr hh hlt

/-- The radius of each style is a number of pixels. -/
theorem radius_eq_pxNat (s : ButtonStyle) : ∃ r ∈ [0, 8, 50], s.radius = pxNat r := by
  cases s
  · exact ⟨8, by decide, by decide⟩
  · exact ⟨50, by decide, by decide⟩
  · exact ⟨0, by decide, by decide⟩
  · exact ⟨8, by decide, by decide⟩

/-! ## Widths -/

theorem toNat_imagePercent (b : ImageBlock) :
    (imagePercent b).toNat = min b.widthPercent.toNat 100 := by
  have hhundred : (100 : UInt32).toNat = 100 := rfl
  change (if b.widthPercent ≤ 100 then b.widthPercent else 100).toNat = _
  split
  · next hle => exact (Nat.min_eq_left (UInt32.le_iff_toNat_le.1 hle)).symm
  · next habove =>
    rw [UInt32.le_iff_toNat_le] at habove
    omega

/-- **The width of an image** is the exact one. -/
theorem toNat_imagePixels (b : ImageBlock) :
    (imagePixels b).toNat =
      (600 - (b.padding.left.toNat + b.padding.right.toNat)) * min b.widthPercent.toNat 100 /
        100 := by
  have hwidth : (UInt32.ofNat contentWidth).toNat = 600 := rfl
  have hmost : min b.widthPercent.toNat 100 ≤ 100 := Nat.min_le_right _ _
  have hproduct : (600 - (b.padding.left.toNat + b.padding.right.toNat)) *
      min b.widthPercent.toNat 100 < 2 ^ 32 := by
    calc _ ≤ 600 * 100 := Nat.mul_le_mul (Nat.sub_le _ _) hmost
      _ < 2 ^ 32 := by decide
  have havailable : 600 - min (b.padding.left.toNat + b.padding.right.toNat) 0xFFFFFFFF =
      600 - (b.padding.left.toNat + b.padding.right.toNat) := by omega
  simp only [imagePixels]
  rw [UInt32.toNat_div, UInt32.toNat_mul, toNat_saturatingSub, toNat_saturatingAdd,
    toNat_imagePercent, hwidth, havailable, Nat.mod_eq_of_lt hproduct]
  rfl

theorem widths_imageRow (b : ImageBlock) :
    plainValues "width" (imageRow b) =
      (if Text.blank b.source then [] else [Number.decimal (imagePixels b).toNat]) ∧
    declaredValues "max-width" (imageRow b) =
      (if Text.blank b.source then [] else [pxNat (imagePixels b).toNat]) := by
  unfold imageRow
  by_cases hsource : Text.blank b.source
  · simp [hsource, plainValues, declaredValues]
  · by_cases hlink : Text.blank b.link <;> constructor <;>
      simp [hsource, hlink, plainValues, declaredValues, linked, row, element, Token.newline,
        Token.attributes, imageDeclarations]

/-! ## The exact geometry -/

/-- **Geometry is exact** for all numbers of 32 bits. The width of the image of any bag, as the
attribute and as the bound of its style, is its percentage of what the padding leaves of 600 pixels.
The height of a drawn shape is 1.3 times the text and its padding, to the nearest whole number and
at most the largest of 32 bits. Its corners, with the radius of any style, are the percentage that
the radius is of half the height, to the nearest whole number and at most 50, and they never grow
with the height. -/
theorem geometry_exact (fresh : FreshIds) (theme : Theme) :
    (∀ c : Component, c.kind? = some .image →
      let rows := rowsOf theme (Block.ofComponent fresh c).content
      let width := c.data.read .percent "width" 100
      let left := c.data.read .number "paddingLeft" 0
      let right := c.data.read .number "paddingRight" 0
      let pixels := (600 - (left.toNat + right.toNat)) * min width.toNat 100 / 100
      let blank := Text.blank (c.data.read .text "src" ImageBlock.new.source)
      plainValues "width" rows = (if blank then [] else [Number.decimal pixels]) ∧
      declaredValues "max-width" rows = (if blank then [] else [Number.decimal pixels ++ "px"])) ∧
    (∀ top bottom size : UInt32, shapeHeight top bottom size =
      min 0xFFFFFFFF ((13 * (top.toNat + bottom.toNat + size.toNat) + 5) / 10)) ∧
    ∀ style : ButtonStyle, ∃ r : Nat, style.radius = Number.decimal r ++ "px" ∧
      ∀ height : UInt32, 0 < height.toNat →
        arcSize style.radius height.toNat =
          min 50 ((400 * r + height.toNat) / (2 * height.toNat)) ∧
        arcSize style.radius height.toNat ≤ 50 ∧
        ∀ higher : UInt32, height.toNat ≤ higher.toNat →
          arcSize style.radius higher.toNat ≤ arcSize style.radius height.toNat := by
  refine ⟨?_, shapeHeight_eq, ?_⟩
  · intro c hkind rows width left right pixels blank
    have hrows : rows = imageRow (ImageBlock.slots.read c.data .new) := by
      change rowsOf theme (Block.ofComponent fresh c).content = _
      rw [content_of_kind?_eq_some hkind]
      rfl
    obtain ⟨hattribute, hbound⟩ := widths_imageRow (ImageBlock.slots.read c.data .new)
    rw [toNat_imagePixels, ImageBlock.read_slots, Padding.read_slots] at hattribute hbound
    rw [hrows, ImageBlock.read_slots, Padding.read_slots]
    exact ⟨hattribute, hbound⟩
  · intro style
    obtain ⟨r, hr, hradius⟩ := radius_eq_pxNat style
    refine ⟨r, hradius, fun height hpos => ?_⟩
    have hexact : ∀ h : UInt32, 0 < h.toNat → arcSize style.radius h.toNat = exactArc r h.toNat :=
      fun h hh => hradius ▸ arcSize_pixels hr hh h.toNat_lt
    refine ⟨hexact height hpos, ?_, fun higher hle => ?_⟩
    · rw [hexact height hpos]
      exact Nat.min_le_left _ _
    · rw [hexact height hpos, hexact higher (Nat.lt_of_lt_of_le hpos hle)]
      exact exactArc_antitone r hpos hle

/-- An image with padding on both sides that takes 40 percent of what is left. -/
def paddedImage : Component :=
  ⟨"1", "image", .ofList [("width", "40%"), ("paddingLeft", "100px"), ("paddingRight", "20")]⟩

theorem geometry_exact_padded :
    plainValues "width" (rowsOf (.ofSettings .standard)
      (Block.ofComponent (fun _ => default) paddedImage).content) = ["192"] ∧
    shapeHeight 0xFFFFFFFF 0 16 = 0xFFFFFFFF ∧ arcSize "8px" 640 = 3 ∧
    arcSize "8px" 641 ≤ arcSize "8px" 640 := by
  obtain ⟨himage, hheight, harc⟩ := geometry_exact (fun _ => default) (.ofSettings .standard)
  obtain ⟨r, hradius, hcorners⟩ := harc .rounded
  obtain ⟨hcorner, -, hlower⟩ := hcorners 640 (by decide)
  have hchars : Number.decimalChars r ++ ['p', 'x'] = ['8'] ++ ['p', 'x'] := by
    simpa [Number.decimal, ButtonStyle.radius] using (congrArg String.toList hradius).symm
  obtain rfl : r = 8 := by
    rw [← Number.ofDigits_decimalChars r, List.append_cancel_right hchars]
    rfl
  exact ⟨(himage paddedImage (by decide)).1.trans (by decide +kernel), hheight _ _ _, hcorner,
    hlower 641 (by decide)⟩

end Email

end MailBlocks
