import Winsmux.Decimal
import Winsmux.Layout.Cells
import Winsmux.Layout.LayoutString

/-!
# Printed layouts

The layout string of a pane tree, and that it is read back as the tree it was printed
from: the printed grammar is unambiguous because a number ends at the first byte that is
no digit, and no byte of a number, of a comma or of an opening bracket closes a group. What
does not fit in 16 bits wraps around.
-/
namespace Winsmux.Layout
open PathTree Json

/-- A rectangle of 16-bit numbers. -/
structure Rect.IsU16 (r : Rect) : Prop where
  x : r.x < 2 ^ 16
  y : r.y < 2 ^ 16
  width : r.width < 2 ^ 16
  height : r.height < 2 ^ 16

def Rect.dims (r : Rect) : Dimensions := ⟨r.width, r.height, r.x, r.y⟩

/-- `WxH,X,Y`. -/
def printDimensions (r : Rect) : Text :=
  decimal r.width ++ 0x78 :: (decimal r.height ++ 0x2c :: (decimal r.x ++ 0x2c :: decimal r.y))

def opening : LayoutKind → UInt8
  | .horizontal => 0x7b
  | .vertical => 0x5b

def closing : LayoutKind → UInt8
  | .horizontal => 0x7d
  | .vertical => 0x5d

section print
variable (newRect : ℕ → ℕ → ℕ → ℕ → Rect)

/-- The rectangles that the children of a split are given. -/
def givenRects (a : Split) (children : List Node) (area : Rect) : List Rect :=
  Id.run (Cells.childRects Overflow.wrapping newRect a children area)

mutual

@[grind =] def layoutNode : Node → Rect → Text
  | .leaf pane, area => printDimensions area ++ 0x2c :: decimal pane.id
  | .split a children, area =>
    printDimensions area ++ opening a.kind ::
      (layoutNodes true children (givenRects newRect a children area) ++ [closing a.kind])

/-- The children with commas between them; one without a rectangle leaves its comma. -/
@[grind =] def layoutNodes (isFirst : Bool) : List Node → List Rect → Text
  | [], _ => []
  | _ :: cs, [] => (if isFirst then [] else [0x2c]) ++ layoutNodes false cs []
  | c :: cs, r :: rs => (if isFirst then [] else [0x2c]) ++ (layoutNode c r ++ layoutNodes false cs rs)

end

/-- The checksum: a rotation to the right and a sum for each byte. -/
def tmuxLayoutChecksum (layout : Text) : UInt16 :=
  layout.foldl (fun csum b => (csum >>> 1 ||| (csum &&& 1) <<< 15) + b.toUInt16) 0

/-- A hex digit in lower case. -/
def lowerHex (d : ℕ) : UInt8 := if d < 10 then (0x30 + d).toUInt8 else (0x57 + d).toUInt8

def printChecksum (csum : UInt16) : Text :=
  [lowerHex (csum.toNat / 4096), lowerHex (csum.toNat / 256 % 16), lowerHex (csum.toNat / 16 % 16),
    lowerHex (csum.toNat % 16)]

def generateWindowLayout (node : Node) (area : Rect) : Text :=
  let body := layoutNode newRect node area
  printChecksum (tmuxLayoutChecksum body) ++ 0x2c :: body

/-- The rectangle that the node at a path is given. -/
def rectGiven : Node → Rect → List ℕ → Option Rect
  | _, area, [] => some area
  | .leaf _, _, _ :: _ => none
  | .split a children, area, i :: path =>
    match children[i]?, (givenRects newRect a children area)[i]? with
    | some c, some r => rectGiven c r path
    | _, _ => none

mutual

@[grind =] def describe : Node → Rect → LayoutNode
  | .leaf pane, area => .leaf ⟨area.dims, some pane.id⟩
  | .split a children, area =>
    .split ⟨a.kind, area.dims⟩ (describeAll children (givenRects newRect a children area))

@[grind =] def describeAll : List Node → List Rect → List LayoutNode
  | c :: cs, r :: rs => describe c r :: describeAll cs rs
  | _, _ => []

end

mutual

/-- The tree that the panes of a tree make when they are handed to its descriptor. -/
@[grind =] def restore : Node → Rect → Node
  | .leaf pane, _ => .leaf pane
  | .split a children, area =>
    let rects := givenRects newRect a children area
    .split ⟨a.kind, layoutSizes a.kind (describeAll newRect children rects)⟩ (restoreAll children rects)

@[grind =] def restoreAll : List Node → List Rect → List Node
  | c :: cs, r :: rs => restore c r :: restoreAll cs rs
  | _, _ => []

end

end print

/-- As the program prints the two panes of a screen of 80 by 24 cells. -/
example : generateWindowLayout (fun x y w h => ⟨x, y, w, h⟩)
    (.split ⟨.horizontal, [50, 50]⟩ [.leaf ⟨0, false⟩, .leaf ⟨1, false⟩]) ⟨0, 0, 80, 24⟩ =
    utf8 "89f5,80x24,0,0{39x24,0,0,0,40x24,40,0,1}" := by decide +kernel

theorem splitAtFirst_append {separator : UInt8} {before : Text} (h : ∀ c ∈ before, c ≠ separator)
    (after : Text) : splitAtFirst separator (before ++ separator :: after) = some (before, after) := by
  induction before with
  | nil => simp [splitAtFirst]
  | cons c before ih =>
    obtain ⟨hc, hbefore⟩ := List.forall_mem_cons.1 h
    rw [List.cons_append, splitAtFirst, if_neg hc, ih hbefore, Option.map_some]

theorem splitAtFirst_decimal {separator : UInt8} (h : isDigit separator = false) (n : ℕ) (after : Text) :
    splitAtFirst separator (decimal n ++ separator :: after) = some (decimal n, after) := by
  refine splitAtFirst_append (fun c hc he => ?_) after
  rw [he] at hc
  exact absurd (isDigit_of_mem_decimal hc) (by simp [h])

/-- What may stand behind a number: nothing, or a byte that is no digit. -/
def EndsNumber (rest : Text) : Prop := ∀ c ∈ rest.head?, isDigit c = false

theorem takeWhile_decimal {p : UInt8 → Bool} (hp : ∀ c, isDigit c = true → p c = true) (n : ℕ) {rest : Text}
    (h : ∀ c ∈ rest.head?, p c = false) :
    (decimal n ++ rest).takeWhile p = decimal n ∧ (decimal n ++ rest).dropWhile p = rest := by
  have hall : ∀ c ∈ decimal n, p c = true := fun c hc => hp c (isDigit_of_mem_decimal hc)
  rw [List.takeWhile_append_of_pos hall, List.dropWhile_append_of_pos hall]
  cases rest with
  | nil => simp
  | cons c rest => simp [h c (by simp)]

theorem parseDimensions_print {r : Rect} (hr : r.IsU16) {rest : Text} (h : EndsNumber rest) :
    parseDimensions (printDimensions r ++ rest) = some (r.dims, rest) := by
  obtain ⟨htake, hdrop⟩ := takeWhile_decimal (p := isDigit) (fun _ hc => hc) r.y h
  simp only [parseDimensions, printDimensions, List.append_assoc, List.cons_append,
    @splitAtFirst_decimal 0x78 rfl, @splitAtFirst_decimal 0x2c rfl,
    Option.bind_eq_bind, Option.bind_some, parseU16, parseUnsigned_decimal hr.width,
    parseUnsigned_decimal hr.height, parseUnsigned_decimal hr.x, htake, hdrop,
    parseUnsigned_decimal hr.y]
  rfl

section given
variable {newRect : ℕ → ℕ → ℕ → ℕ → Rect} (hnew : ∀ x y width height, (newRect x y width height).IsU16)

theorem slices_cons_wrapping (isHorizontal : Bool) (area : Rect) (available total i offset pct : ℕ)
    (rest : List ℕ) :
    ∃ x y width height offset', Cells.slices Overflow.wrapping newRect isHorizontal area available total i
        offset (pct :: rest) =
      newRect x y width height ::
        Id.run (Cells.slices Overflow.wrapping newRect isHorizontal area available total (i + 1) offset' rest) := by
  cases isHorizontal <;> exact ⟨_, _, _, _, _, rfl⟩

include hnew in
theorem isU16_slices (isHorizontal : Bool) (area : Rect) (available total : ℕ) :
    ∀ (sizes : List ℕ) (i offset : ℕ),
      ∀ r ∈ Id.run (Cells.slices Overflow.wrapping newRect isHorizontal area available total i offset sizes),
        r.IsU16
  | [], _, _, r, hr => by simp [Cells.slices] at hr
  | pct :: rest, i, offset, r, hr => by
    obtain ⟨x, y, width, height, offset', he⟩ := @slices_cons_wrapping newRect isHorizontal area
      available total i offset pct rest
    rw [he] at hr
    obtain rfl | hr := List.mem_cons.1 hr
    · exact hnew x y width height
    · exact isU16_slices isHorizontal area available total rest _ _ r hr

theorem length_slices_wrapping (isHorizontal : Bool) (area : Rect) (available total : ℕ) :
    ∀ (sizes : List ℕ) (i offset : ℕ),
      (Id.run (Cells.slices Overflow.wrapping newRect isHorizontal area available total i offset sizes)).length =
        sizes.length
  | [], _, _ => rfl
  | pct :: rest, i, offset => by
    obtain ⟨x, y, width, height, offset', he⟩ := @slices_cons_wrapping newRect isHorizontal area
      available total i offset pct rest
    rw [he, List.length_cons]
    exact congrArg (· + 1) (length_slices_wrapping isHorizontal area available total rest (i + 1) offset')

/-- The ways to cut an area: not at all, or into slices. -/
theorem splitWithGaps_wrapping (isHorizontal : Bool) (sizes : List ℕ) (area : Rect) :
    Cells.splitWithGaps Overflow.wrapping newRect isHorizontal sizes area = (sizes.map fun _ => area) ∨
      ∃ available total, Cells.splitWithGaps Overflow.wrapping newRect isHorizontal sizes area =
        Cells.slices Overflow.wrapping newRect isHorizontal area available total 0 0 sizes := by
  rw [Cells.splitWithGaps]
  split
  · exact .inl rfl
  · by_cases h : Id.run (Overflow.wrapping.sumU32 sizes) = 0
    · exact .inl (if_pos h)
    · exact .inr ⟨_, _, if_neg h⟩

include hnew in
theorem isU16_givenRects {a : Split} {children : List Node} {area r : Rect} (harea : area.IsU16)
    (hr : r ∈ givenRects newRect a children area) : r.IsU16 := by
  obtain h | ⟨available, total, h⟩ := @splitWithGaps_wrapping newRect a.isHorizontal
    (effectiveSizes a children) area
  · rw [givenRects, Cells.childRects, h] at hr
    obtain ⟨-, -, rfl⟩ := List.mem_map.1 hr
    exact harea
  · rw [givenRects, Cells.childRects, h] at hr
    exact isU16_slices hnew _ _ _ _ _ _ _ r hr

@[simp] theorem length_givenRects (a : Split) (children : List Node) (area : Rect) :
    (givenRects newRect a children area).length = children.length := by
  obtain h | ⟨available, total, h⟩ := @splitWithGaps_wrapping newRect a.isHorizontal
    (effectiveSizes a children) area
  · rw [givenRects, Cells.childRects, h]
    simp [Id.run]
  · rw [givenRects, Cells.childRects, h, length_slices_wrapping, length_effectiveSizes]

end given

/-- What may stand behind a node: nothing, or a byte that ends a pane's id. -/
def EndsNode (rest : Text) : Prop := ∀ c ∈ rest.head?, endsPaneId c = true

theorem not_isDigit_of_endsPaneId {c : UInt8} (h : endsPaneId c = true) : isDigit c = false := by
  simp only [endsPaneId, List.mem_cons, List.not_mem_nil, or_false, decide_eq_true_eq] at h
  rcases h with rfl | rfl | rfl | rfl | rfl <;> rfl

theorem EndsNode.cons {c : UInt8} (h : endsPaneId c = true) (rest : Text) : EndsNode (c :: rest) := by
  intro d hd
  obtain rfl : c = d := by simpa using hd
  exact h

theorem EndsNode.endsNumber {rest : Text} (h : EndsNode rest) : EndsNumber rest :=
  fun c hc => not_isDigit_of_endsPaneId (h c hc)

theorem endsPaneId_brackets (k : LayoutKind) :
    endsPaneId (opening k) = true ∧ endsPaneId (closing k) = true := by
  cases k <;> decide

theorem parseLayoutLeaf_print (dims : Dimensions) {id : ℕ} (hid : id < 2 ^ 64) {rest : Text}
    (h : EndsNode rest) :
    parseLayoutLeaf dims (0x2c :: (decimal id ++ rest)) = (.leaf ⟨dims, some id⟩, rest) := by
  obtain ⟨htake, hdrop⟩ := @takeWhile_decimal (!endsPaneId ·) (fun c hc => by
    cases he : endsPaneId c
    · rfl
    · rw [not_isDigit_of_endsPaneId he] at hc
      contradiction) id rest fun c hc => by rw [h c hc]; rfl
  rw [parseLayoutLeaf, htake, hdrop, parseUnsigned_decimal hid]

theorem printDimensions_eq_cons (r : Rect) : ∃ d t, printDimensions r = d :: t ∧ isDigit d = true := by
  obtain ⟨d, t, hd, hdigit⟩ := decimal_eq_cons r.width
  exact ⟨d, _, by rw [printDimensions, hd, List.cons_append], hdigit⟩

section read
variable {newRect : ℕ → ℕ → ℕ → ℕ → Rect}

theorem layoutNode_eq_cons (n : Node) (area : Rect) :
    ∃ d t, layoutNode newRect n area = d :: t ∧ isDigit d = true := by
  obtain ⟨d, t, hd, hdigit⟩ := printDimensions_eq_cons area
  cases n with
  | leaf p => exact ⟨d, _, by rw [layoutNode, hd, List.cons_append], hdigit⟩
  | split a children => exact ⟨d, _, by rw [layoutNode, hd, List.cons_append], hdigit⟩

/-- A split's text is read by reading the children's. -/
theorem parseLayoutNode_split {area : Rect} (harea : area.IsU16) (k : LayoutKind) (fuel : ℕ) (rest : Text) :
    parseLayoutNode (fuel + 1) (printDimensions area ++ opening k :: rest) =
      (parseLayoutChildren fuel (closing k) true rest).map fun (children, rest) =>
        (.split ⟨k, area.dims⟩ children, rest) := by
  have hdims := @parseDimensions_print area harea (opening k :: rest)
    (EndsNode.cons (endsPaneId_brackets k).1 rest).endsNumber
  rw [parseLayoutNode, hdims]
  cases k <;> rfl

theorem parseLayoutNode_leaf {area : Rect} (harea : area.IsU16) {id : ℕ} (hid : id < 2 ^ 64) (fuel : ℕ)
    {rest : Text} (h : EndsNode rest) :
    parseLayoutNode (fuel + 1) (printDimensions area ++ 0x2c :: (decimal id ++ rest)) =
      some (.leaf ⟨area.dims, some id⟩, rest) := by
  have hdims := @parseDimensions_print area harea (0x2c :: (decimal id ++ rest))
    (EndsNode.cons (by decide) _).endsNumber
  rw [parseLayoutNode, hdims]
  exact congrArg some (parseLayoutLeaf_print area.dims hid h)

/-- The children's text is read child by child. -/
theorem parseLayoutChildren_cons (k : LayoutKind) (isFirst : Bool) (fuel : ℕ) (n : Node) (area : Rect)
    (rest : Text) :
    parseLayoutChildren (fuel + 1) (closing k) isFirst
        ((if isFirst then [] else [0x2c]) ++ (layoutNode newRect n area ++ rest)) =
      match parseLayoutNode fuel (layoutNode newRect n area ++ rest) with
      | none => none
      | some (node, rest) =>
        (parseLayoutChildren fuel (closing k) false rest).map fun (nodes, rest) => (node :: nodes, rest) := by
  cases isFirst
  · have hne : (0x2c : UInt8) ≠ closing k := by cases k <;> decide
    simp only [Bool.false_eq_true, if_false, List.cons_append, List.nil_append]
    rw [parseLayoutChildren, if_neg hne]
    rfl
  · obtain ⟨d, t, hd, hdigit⟩ := @layoutNode_eq_cons newRect n area
    have hne : d ≠ closing k := by
      rintro rfl
      rw [not_isDigit_of_endsPaneId (endsPaneId_brackets k).2] at hdigit
      contradiction
    simp only [if_true, List.nil_append, hd, List.cons_append]
    rw [parseLayoutChildren, if_neg hne]
    rfl

theorem endsNode_layoutNodes (k : LayoutKind) (cs : List Node) {rs : List Rect} (h : rs.length = cs.length)
    (rest : Text) : EndsNode (layoutNodes newRect false cs rs ++ closing k :: rest) := by
  cases cs with
  | nil =>
    rw [layoutNodes]
    exact EndsNode.cons (endsPaneId_brackets k).2 rest
  | cons c cs =>
    cases rs with
    | nil => simp at h
    | cons r rs =>
      rw [layoutNodes]
      exact EndsNode.cons (by decide) _

variable (hnew : ∀ x y width height, (newRect x y width height).IsU16)
include hnew

theorem parseLayoutNode_print {n : Node} (hids : ∀ p ∈ leaves n, p.id < 2 ^ 64) {area : Rect}
    (harea : area.IsU16) {fuel : ℕ} {rest : Text} (hrest : EndsNode rest)
    (hfuel : (layoutNode newRect n area ++ rest).length < fuel) :
    parseLayoutNode fuel (layoutNode newRect n area ++ rest) = some (describe newRect n area, rest) := by
  induction n using tree_induction generalizing area fuel rest with
  | leaf p =>
    obtain ⟨fuel, rfl⟩ := Nat.exists_eq_succ_of_ne_zero (Nat.ne_of_gt (Nat.zero_lt_of_lt hfuel))
    rw [layoutNode, describe, List.append_assoc, List.cons_append]
    exact parseLayoutNode_leaf harea (hids p (by simp)) fuel hrest
  | split a children ih =>
    have hchildren : ∀ (cs : List Node) (rs : List Rect) (isFirst : Bool) (fuel : ℕ),
        (∀ c ∈ cs, c ∈ children) → rs.length = cs.length → (∀ r ∈ rs, r.IsU16) →
        (layoutNodes newRect isFirst cs rs ++ closing a.kind :: rest).length + 1 < fuel →
        parseLayoutChildren fuel (closing a.kind) isFirst
            (layoutNodes newRect isFirst cs rs ++ closing a.kind :: rest) =
          some (describeAll newRect cs rs, rest) := by
      intro cs
      induction cs with
      | nil =>
        intro rs isFirst fuel _ _ _ hfuel
        obtain ⟨fuel, rfl⟩ := Nat.exists_eq_succ_of_ne_zero (Nat.ne_of_gt (Nat.zero_lt_of_lt hfuel))
        rw [layoutNodes, describeAll] <;> simp [parseLayoutChildren]
      | cons c cs ihcs =>
        intro rs isFirst fuel hmem hlen hrs hfuel
        obtain ⟨fuel, rfl⟩ := Nat.exists_eq_succ_of_ne_zero (Nat.ne_of_gt (Nat.zero_lt_of_lt hfuel))
        cases rs with
        | nil => simp at hlen
        | cons r rs =>
          obtain ⟨hr, hrs⟩ := List.forall_mem_cons.1 hrs
          obtain ⟨hc, hcs⟩ := List.forall_mem_cons.1 hmem
          have hlen : rs.length = cs.length := by simpa using hlen
          rw [layoutNodes] at hfuel ⊢
          simp only [List.append_assoc, List.length_append, List.length_cons] at hfuel ⊢
          have hnode := @ih c hc (fun p hp => hids p (by simpa using ⟨c, hc, hp⟩)) _ hr fuel _
            (@endsNode_layoutNodes newRect a.kind cs rs hlen rest) (by
              simp only [List.length_append, List.length_cons]
              omega)
          have hlater := ihcs rs false fuel hcs hlen hrs (by
            obtain ⟨d, t, hd, -⟩ := @layoutNode_eq_cons newRect c r
            simp only [hd, List.length_append, List.length_cons] at hfuel ⊢
            omega)
          rw [parseLayoutChildren_cons, hnode]
          simp only [hlater, Option.map_some, describeAll]
    obtain ⟨fuel, rfl⟩ := Nat.exists_eq_succ_of_ne_zero (Nat.ne_of_gt (Nat.zero_lt_of_lt hfuel))
    obtain ⟨d, t, hd, -⟩ := printDimensions_eq_cons area
    have hread := hchildren children (givenRects newRect a children area) true fuel (fun c hc => hc)
      (length_givenRects a children area) (fun r hr => isU16_givenRects hnew harea hr) (by
        rw [layoutNode, hd] at hfuel
        simp only [List.length_append, List.length_cons] at hfuel ⊢
        omega)
    rw [layoutNode, describe]
    simp only [List.append_assoc, List.cons_append, List.nil_append]
    rw [parseLayoutNode_split harea, hread]
    rfl

end read

theorem isGraphic_printDimensions {r : Rect} {c : UInt8} (h : c ∈ printDimensions r) : isGraphic c = true := by
  simp only [printDimensions, List.mem_append, List.mem_cons] at h
  rcases h with h | rfl | h | rfl | h | rfl | h
  · exact isGraphic_of_isDigit (isDigit_of_mem_decimal h)
  · decide
  · exact isGraphic_of_isDigit (isDigit_of_mem_decimal h)
  · decide
  · exact isGraphic_of_isDigit (isDigit_of_mem_decimal h)
  · decide
  · exact isGraphic_of_isDigit (isDigit_of_mem_decimal h)

theorem isGraphic_layoutNode {newRect : ℕ → ℕ → ℕ → ℕ → Rect} (n : Node) (area : Rect) :
    ∀ c ∈ layoutNode newRect n area, isGraphic c = true := by
  induction n using tree_induction generalizing area with
  | leaf p =>
    intro c hc
    rw [layoutNode] at hc
    obtain hc | hc := List.mem_append.1 hc
    · exact isGraphic_printDimensions hc
    · obtain rfl | hc := List.mem_cons.1 hc
      · decide
      · exact isGraphic_of_isDigit (isDigit_of_mem_decimal hc)
  | split a children ih =>
    have hchildren : ∀ (cs : List Node) (rs : List Rect) (isFirst : Bool), (∀ c ∈ cs, c ∈ children) →
        ∀ c ∈ layoutNodes newRect isFirst cs rs, isGraphic c = true := by
      have hcomma : ∀ (isFirst : Bool), ∀ c ∈ (if isFirst then [] else [0x2c] : Text), isGraphic c = true := by
        rintro (_ | _) <;> simp [isGraphic]
      intro cs
      induction cs with
      | nil => intro rs isFirst _ c hc; simp [layoutNodes] at hc
      | cons d cs ihcs =>
        intro rs isFirst hmem c hc
        obtain ⟨hd, hcs⟩ := List.forall_mem_cons.1 hmem
        cases rs with
        | nil =>
          rw [layoutNodes] at hc
          obtain hc | hc := List.mem_append.1 hc
          · exact hcomma isFirst c hc
          · exact ihcs [] false hcs c hc
        | cons r rs =>
          rw [layoutNodes] at hc
          obtain hc | hc := List.mem_append.1 hc
          · exact hcomma isFirst c hc
          · obtain hc | hc := List.mem_append.1 hc
            · exact ih d hd r c hc
            · exact ihcs rs false hcs c hc
    have hbracket : isGraphic (opening a.kind) = true ∧ isGraphic (closing a.kind) = true := by
      cases a.kind <;> decide
    intro c hc
    rw [layoutNode] at hc
    obtain hc | hc := List.mem_append.1 hc
    · exact isGraphic_printDimensions hc
    · obtain rfl | hc := List.mem_cons.1 hc
      · exact hbracket.1
      · obtain hc | hc := List.mem_append.1 hc
        · exact hchildren children _ true (fun c hc => hc) c hc
        · obtain rfl : c = closing a.kind := by simpa using hc
          exact hbracket.2

theorem lowerHex_of_lt {d : ℕ} (h : d < 16) :
    isHexDigit (lowerHex d) = true ∧ isGraphic (lowerHex d) = true := by
  have hall : ∀ d : Fin 16, isHexDigit (lowerHex d) = true ∧ isGraphic (lowerHex d) = true := by decide
  exact hall ⟨d, h⟩

theorem parseLayoutString_generate {newRect : ℕ → ℕ → ℕ → ℕ → Rect}
    (hnew : ∀ x y width height, (newRect x y width height).IsU16) {n : Node}
    (hids : ∀ p ∈ leaves n, p.id < 2 ^ 64) {area : Rect} (harea : area.IsU16) :
    parseLayoutString (generateWindowLayout newRect n area) = some (describe newRect n area) := by
  set csum := tmuxLayoutChecksum (layoutNode newRect n area) with hcsum
  have hlt : csum.toNat < 65536 := csum.toNat_lt
  have h1 := lowerHex_of_lt (d := csum.toNat / 4096) (by omega)
  have h2 := lowerHex_of_lt (d := csum.toNat / 256 % 16) (by omega)
  have h3 := lowerHex_of_lt (d := csum.toNat / 16 % 16) (by omega)
  have h4 := lowerHex_of_lt (d := csum.toNat % 16) (by omega)
  have htext : generateWindowLayout newRect n area = lowerHex (csum.toNat / 4096) ::
      lowerHex (csum.toNat / 256 % 16) :: lowerHex (csum.toNat / 16 % 16) :: lowerHex (csum.toNat % 16) ::
        0x2c :: layoutNode newRect n area := rfl
  have htrim : trim (generateWindowLayout newRect n area) = generateWindowLayout newRect n area := by
    refine trim_graphic fun c hc => ?_
    rw [htext] at hc
    simp only [List.mem_cons] at hc
    rcases hc with rfl | rfl | rfl | rfl | rfl | hc
    · exact h1.2
    · exact h2.2
    · exact h3.2
    · exact h4.2
    · decide
    · exact isGraphic_layoutNode n area c hc
  have hread := @parseLayoutNode_print newRect hnew n hids area harea
    ((layoutNode newRect n area).length + 2) [] (fun c hc => by simp at hc) (by simp)
  rw [List.append_nil] at hread
  rw [parseLayoutString, htrim, htext]
  simp only [List.all_cons, List.all_nil, h1.1, h2.1, h3.1, h4.1, Bool.and_true, if_true, hread,
    Option.map_some]

section described
variable {newRect : ℕ → ℕ → ℕ → ℕ → Rect}

theorem describeAll_eq (cs : List Node) (rs : List Rect) :
    describeAll newRect cs rs = List.zipWith (describe newRect) cs rs := by
  induction cs generalizing rs with
  | nil => cases rs <;> rfl
  | cons c cs ih =>
    cases rs with
    | nil => rfl
    | cons r rs => rw [describeAll, ih, List.zipWith_cons_cons]

theorem describe_split (a : Split) (children : List Node) (area : Rect) :
    describe newRect (.split a children) area = .split ⟨a.kind, area.dims⟩
      (List.zipWith (describe newRect) children (givenRects newRect a children area)) := by
  rw [describe, describeAll_eq]

theorem map_zipWith_eq {α β γ : Type*} {f : α → β → γ} {γ' : Type*} {g : γ → γ'} {h : α → γ'} {as : List α}
    (hf : ∀ x ∈ as, ∀ y, g (f x y) = h x) {bs : List β} (hlen : bs.length = as.length) :
    (List.zipWith f as bs).map g = as.map h := by
  induction as generalizing bs with
  | nil => simp
  | cons x as ih =>
    cases bs with
    | nil => simp at hlen
    | cons y bs =>
      obtain ⟨hx, has⟩ := List.forall_mem_cons.1 hf
      rw [List.zipWith_cons_cons, List.map_cons, List.map_cons, hx, ih has (by simpa using hlen)]

/-- The shape, the kinds and the ids of a descriptor are those of the tree. -/
theorem map_describe (n : Node) (area : Rect) :
    (describe newRect n area).map LayoutSplit.kind LayoutLeaf.paneId = n.map Split.kind (some ·.id) := by
  induction n using tree_induction generalizing area with
  | leaf p => rw [describe, map_leaf, map_leaf]
  | split a children ih =>
    rw [describe_split, map_split, map_split, map_zipWith_eq (fun c hc r => ih c hc r) (length_givenRects ..)]

theorem at?_describe (n : Node) (area : Rect) (path : List ℕ) :
    (at? (describe newRect n area) path).map LayoutNode.dims =
      (rectGiven newRect n area path).map Rect.dims := by
  induction path generalizing n area with
  | nil => cases n <;> simp [describe, rectGiven, LayoutNode.dims]
  | cons i path ih =>
    cases n with
    | leaf p => rfl
    | split a children =>
      rw [describe_split, at?_split_cons, rectGiven, List.getElem?_zipWith]
      cases hc : children[i]? with
      | none => rfl
      | some c =>
        cases hr : (givenRects newRect a children area)[i]? with
        | none => rfl
        | some r => exact ih c r

theorem restoreAll_eq (cs : List Node) (rs : List Rect) :
    restoreAll newRect cs rs = List.zipWith (restore newRect) cs rs := by
  induction cs generalizing rs with
  | nil => cases rs <;> rfl
  | cons c cs ih =>
    cases rs with
    | nil => rfl
    | cons r rs => rw [restoreAll, ih, List.zipWith_cons_cons]

theorem restore_split (a : Split) (children : List Node) (area : Rect) :
    restore newRect (.split a children) area =
      .split ⟨a.kind, layoutSizes a.kind
        (List.zipWith (describe newRect) children (givenRects newRect a children area))⟩
        (List.zipWith (restore newRect) children (givenRects newRect a children area)) := by
  rw [restore, describeAll_eq, restoreAll_eq]

/-- The sizes apart, a restored tree is the tree. -/
theorem map_restore (n : Node) (area : Rect) :
    (restore newRect n area).map Split.kind id = n.map Split.kind id := by
  induction n using tree_induction generalizing area with
  | leaf p => rw [restore]
  | split a children ih =>
    rw [restore_split, map_split, map_split, map_zipWith_eq (fun c hc r => ih c hc r) (length_givenRects ..)]

/-- Handing the panes of a tree to its descriptor takes all of them. -/
theorem layoutNodeToNode_describe (n : Node) (area : Rect) (panes : List Node) :
    layoutNodeToNode (describe newRect n area) (collectLeaves n ++ panes) =
      (some (restore newRect n area), panes) := by
  induction n using tree_induction generalizing area panes with
  | leaf p => rfl
  | split a children ih =>
    have hchildren : ∀ (cs : List Node) (rs : List Rect) (panes : List Node), (∀ c ∈ cs, c ∈ children) →
        rs.length = cs.length →
        layoutChildrenToNodes (List.zipWith (describe newRect) cs rs) (cs.flatMap collectLeaves ++ panes) =
          (some (List.zipWith (restore newRect) cs rs), panes) := by
      intro cs
      induction cs with
      | nil => exact fun rs panes _ _ => rfl
      | cons c cs ihcs =>
        intro rs panes hmem hlen
        obtain ⟨hc, hcs⟩ := List.forall_mem_cons.1 hmem
        cases rs with
        | nil => simp at hlen
        | cons r rs =>
          have hfirst := ih c hc r (cs.flatMap collectLeaves ++ panes)
          have hrest := ihcs rs panes hcs (by simpa using hlen)
          rw [List.zipWith_cons_cons, List.flatMap_cons, List.append_assoc, layoutChildrenToNodes, hfirst]
          simp only [hrest, List.zipWith_cons_cons]
    have hleaves : collectLeaves (.split a children) = children.flatMap collectLeaves := by
      rw [collectLeaves, leaves_split, List.map_flatMap]
      rfl
    rw [describe_split, restore_split, hleaves, layoutNodeToNode,
      hchildren children _ panes (fun c hc => hc) (length_givenRects ..)]

end described

/-- A printed layout is read back: with the tree's shape and kinds, the rectangle of each node
and the panes' ids in order, and the panes handed out again stand where they stood. -/
theorem parse_generateWindowLayout {newRect : ℕ → ℕ → ℕ → ℕ → Rect}
    (hnew : ∀ x y width height, (newRect x y width height).IsU16) {n : Node}
    (hids : ∀ p ∈ leaves n, p.id < 2 ^ 64) {area : Rect} (harea : area.IsU16) :
    ∃ d, parseLayoutString (generateWindowLayout newRect n area) = some d ∧
      d.map LayoutSplit.kind LayoutLeaf.paneId = n.map Split.kind (some ·.id) ∧
      (leaves d).map LayoutLeaf.paneId = (collectPaneIds n).map some ∧
      (∀ path, (at? d path).map LayoutNode.dims = (rectGiven newRect n area path).map Rect.dims) ∧
      ∃ m : Node, layoutNodeToNode d (collectLeaves n) = (some m, []) ∧
        m.map Split.kind id = n.map Split.kind id := by
  refine ⟨describe newRect n area, parseLayoutString_generate hnew hids harea, map_describe n area, ?_,
    at?_describe n area, ?_⟩
  · rw [← leaves_map LayoutSplit.kind, map_describe, leaves_map, collectPaneIds, List.map_map]
    rfl
  · have hm := @layoutNodeToNode_describe newRect n area []
    rw [List.append_nil] at hm
    exact ⟨restore newRect n area, hm, map_restore n area⟩

/-- Two panes on a screen of 80 by 24 cells. -/
theorem parse_generateWindowLayout_two :
    let newRect := fun x y width height : ℕ => (⟨x % 65536, y % 65536,
      min (x + width) 65535 - x, min (y + height) 65535 - y⟩ : Rect)
    let n : Node := .split ⟨.horizontal, [50, 50]⟩ [.leaf ⟨0, false⟩, .leaf ⟨7, false⟩]
    ∃ d, parseLayoutString (generateWindowLayout newRect n ⟨0, 0, 80, 24⟩) = some d ∧
      (leaves d).map LayoutLeaf.paneId = [some 0, some 7] := by
  intro newRect n
  have hnew : ∀ x y width height, (newRect x y width height).IsU16 := fun x y width height =>
    ⟨Nat.mod_lt _ (by decide), Nat.mod_lt _ (by decide), by simp only [newRect]; omega, by simp only [newRect]; omega⟩
  obtain ⟨d, hd, -, hids, -⟩ := @parse_generateWindowLayout newRect hnew n (by simp [n])
    ⟨0, 0, 80, 24⟩ ⟨by decide, by decide, by decide, by decide⟩
  exact ⟨d, hd, hids⟩

end Winsmux.Layout
