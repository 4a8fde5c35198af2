import Winsmux.Decimal
import Winsmux.TextLines
import Winsmux.Layout.Node

/-!
# Layout strings

The text form of a layout: a checksum of four hex digits, then a node with its
dimensions, which is a leaf or a group of nodes in braces (side by side) or brackets
(stacked). A parsed layout is a descriptor without panes; panes are handed out to its
leaves from left to right.
-/
namespace Winsmux.Layout
open PathTree Json

structure Dimensions where
  width : ℕ
  height : ℕ
  x : ℕ
  y : ℕ
  deriving DecidableEq

structure LayoutLeaf where
  dims : Dimensions
  paneId : Option ℕ
  deriving DecidableEq

structure LayoutSplit where
  kind : LayoutKind
  dims : Dimensions
  deriving DecidableEq

abbrev LayoutNode := PathTree LayoutSplit LayoutLeaf

def LayoutNode.countLeaves (layout : LayoutNode) : ℕ := (leaves layout).length

def LayoutNode.dims : LayoutNode → Dimensions
  | .leaf l => l.dims
  | .split a _ => a.dims

def isHexDigit (c : UInt8) : Bool :=
  isDigit c || 0x41 ≤ c && c ≤ 0x46 || 0x61 ≤ c && c ≤ 0x66

def parseU16 : Text → Option ℕ := parseUnsigned (2 ^ 16)

/-- What stands before and after the first of the separators. -/
def splitAtFirst (separator : UInt8) : Text → Option (Text × Text)
  | [] => none
  | c :: t =>
    if c = separator then some ([], t)
    else (splitAtFirst separator t).map fun (before, after) => (c :: before, after)

/-- `WxH,X,Y` and the text behind it. -/
def parseDimensions (s : Text) : Option (Dimensions × Text) := do
  let (w, afterX) ← splitAtFirst 0x78 s
  let width ← parseU16 w
  let (h, afterH) ← splitAtFirst 0x2c afterX
  let height ← parseU16 h
  let (xc, afterXcoord) ← splitAtFirst 0x2c afterH
  let x ← parseU16 xc
  let y ← parseU16 (afterXcoord.takeWhile isDigit)
  some (⟨width, height, x, y⟩, afterXcoord.dropWhile isDigit)

/-- The characters that end a pane id. -/
def endsPaneId (c : UInt8) : Bool := c ∈ [0x2c, 0x7b, 0x5b, 0x7d, 0x5d]

/-- A leaf, with a pane id behind it or not. -/
def parseLayoutLeaf (dims : Dimensions) : Text → LayoutNode × Text
  | 0x2c :: idStr =>
    (.leaf ⟨dims, parseUnsigned (2 ^ 64) (idStr.takeWhile (!endsPaneId ·))⟩,
      idStr.dropWhile (!endsPaneId ·))
  | rest => (.leaf ⟨dims, none⟩, rest)

mutual

/-- A node and the text behind it. -/
def parseLayoutNode : ℕ → Text → Option (LayoutNode × Text)
  | 0, _ => none
  | fuel + 1, s =>
    match parseDimensions s with
    | none => none
    | some (dims, 0x7b :: rest) =>
      (parseLayoutChildren fuel 0x7d true rest).map fun (children, rest) =>
        (.split ⟨.horizontal, dims⟩ children, rest)
    | some (dims, 0x5b :: rest) =>
      (parseLayoutChildren fuel 0x5d true rest).map fun (children, rest) =>
        (.split ⟨.vertical, dims⟩ children, rest)
    | some (dims, rest) => some (parseLayoutLeaf dims rest)

/-- The nodes up to the closing bracket and the text behind it; a comma may stand before
each node but the first. -/
def parseLayoutChildren : ℕ → UInt8 → Bool → Text → Option (List LayoutNode × Text)
  | 0, _, _, _ => none
  | _ + 1, _, _, [] => none
  | fuel + 1, closing, isFirst, c :: t =>
    if c = closing then some ([], t)
    else
      match parseLayoutNode fuel (if !isFirst && c = 0x2c then t else c :: t) with
      | none => none
      | some (node, rest) =>
        (parseLayoutChildren fuel closing false rest).map fun (nodes, rest) => (node :: nodes, rest)

end

def parseLayoutString (layoutStr : Text) : Option LayoutNode :=
  match trim layoutStr with
  | a :: b :: c :: d :: 0x2c :: body =>
    if [a, b, c, d].all isHexDigit then
      (parseLayoutNode (body.length + 2) body).map Prod.fst
    else none
  | _ => none

-- the fuel never runs out: every node takes at least one byte

theorem length_splitAtFirst {separator : UInt8} {s before after : Text}
    (h : splitAtFirst separator s = some (before, after)) : after.length < s.length := by
  induction s generalizing before with
  | nil => simp [splitAtFirst] at h
  | cons c t ih =>
    rw [splitAtFirst] at h
    split at h
    · obtain ⟨-, rfl⟩ := Prod.mk.inj (Option.some.inj h)
      simp
    · obtain ⟨⟨b, a⟩, hs, he⟩ := Option.map_eq_some_iff.1 h
      obtain ⟨-, rfl⟩ := Prod.mk.inj he
      exact Nat.lt_succ_of_lt (ih hs)

theorem length_parseDimensions {s rest : Text} {dims : Dimensions}
    (h : parseDimensions s = some (dims, rest)) : rest.length < s.length := by
  simp only [parseDimensions, Option.bind_eq_bind, Option.bind_eq_some_iff] at h
  obtain ⟨⟨w, afterX⟩, h1, width, -, ⟨_, afterH⟩, h2, height, -, ⟨xc, afterXcoord⟩, h3, h⟩ := h
  obtain ⟨x, -, y, -, h⟩ := h
  obtain ⟨-, rfl⟩ := Prod.mk.inj (Option.some.inj h)
  have hd : (afterXcoord.dropWhile isDigit).length ≤ afterXcoord.length :=
    (List.dropWhile_sublist _).length_le
  have h1 := length_splitAtFirst h1
  have h2 := length_splitAtFirst h2
  have h3 := length_splitAtFirst h3
  dsimp only at h1 h2 h3 hd ⊢
  omega

theorem length_parseLayoutLeaf (dims : Dimensions) (s : Text) :
    (parseLayoutLeaf dims s).2.length ≤ s.length := by
  rw [parseLayoutLeaf.eq_def]
  split
  · exact (List.dropWhile_sublist _).length_le.trans (by simp)
  · exact le_rfl

mutual

theorem length_parseLayoutNode {fuel : ℕ} {s rest : Text} {node : LayoutNode}
    (h : parseLayoutNode fuel s = some (node, rest)) : rest.length < s.length := by
  cases fuel with
  | zero => simp [parseLayoutNode] at h
  | succ fuel =>
    rw [parseLayoutNode] at h
    split at h
    · contradiction
    · next hd =>
      obtain ⟨⟨children, r⟩, hc, he⟩ := Option.map_eq_some_iff.1 h
      obtain ⟨-, rfl⟩ := Prod.mk.inj he
      have hc := length_parseLayoutChildren hc
      have hd := length_parseDimensions hd
      simp only [List.length_cons] at hd
      omega
    · next hd =>
      obtain ⟨⟨children, r⟩, hc, he⟩ := Option.map_eq_some_iff.1 h
      obtain ⟨-, rfl⟩ := Prod.mk.inj he
      have hc := length_parseLayoutChildren hc
      have hd := length_parseDimensions hd
      simp only [List.length_cons] at hd
      omega
    · next dims r _ _ hd =>
      have hl := length_parseLayoutLeaf dims r
      rw [Option.some.inj h] at hl
      exact hl.trans_lt (length_parseDimensions hd)

theorem length_parseLayoutChildren {fuel : ℕ} {closing : UInt8} {isFirst : Bool} {s rest : Text}
    {nodes : List LayoutNode} (h : parseLayoutChildren fuel closing isFirst s = some (nodes, rest)) :
    rest.length < s.length := by
  cases fuel with
  | zero => simp [parseLayoutChildren] at h
  | succ fuel =>
    cases s with
    | nil => simp [parseLayoutChildren] at h
    | cons c t =>
      rw [parseLayoutChildren] at h
      split at h
      · obtain ⟨-, rfl⟩ := Prod.mk.inj (Option.some.inj h)
        simp
      · split at h
        · contradiction
        · next hn =>
          obtain ⟨⟨nodes, r⟩, hc, he⟩ := Option.map_eq_some_iff.1 h
          obtain ⟨-, rfl⟩ := Prod.mk.inj he
          have hn := length_parseLayoutNode hn
          have hc := length_parseLayoutChildren hc
          split at hn <;> simp only [List.length_cons] at hn ⊢ <;> omega

end

mutual

theorem parseLayoutNode_fuel (fuel fuel' : ℕ) {s : Text} (h : s.length < fuel)
    (h' : s.length < fuel') : parseLayoutNode fuel s = parseLayoutNode fuel' s := by
  cases fuel with
  | zero => contradiction
  | succ fuel =>
    cases fuel' with
    | zero => contradiction
    | succ fuel' =>
      rw [parseLayoutNode, parseLayoutNode]
      split
      · rfl
      · next hd =>
        have hd := length_parseDimensions hd
        simp only [List.length_cons] at hd
        rw [parseLayoutChildren_fuel fuel fuel' (by omega) (by omega)]
      · next hd =>
        have hd := length_parseDimensions hd
        simp only [List.length_cons] at hd
        rw [parseLayoutChildren_fuel fuel fuel' (by omega) (by omega)]
      · rfl

theorem parseLayoutChildren_fuel (fuel fuel' : ℕ) {closing : UInt8} {isFirst : Bool} {s : Text}
    (h : s.length + 1 < fuel) (h' : s.length + 1 < fuel') :
    parseLayoutChildren fuel closing isFirst s = parseLayoutChildren fuel' closing isFirst s := by
  cases fuel with
  | zero => contradiction
  | succ fuel =>
    cases fuel' with
    | zero => contradiction
    | succ fuel' =>
      cases s with
      | nil => rfl
      | cons c t =>
        simp only [List.length_cons] at h h'
        have hs : (if !isFirst && c = 0x2c then t else c :: t).length ≤ t.length + 1 := by
          split <;> simp
        rw [parseLayoutChildren, parseLayoutChildren,
          parseLayoutNode_fuel fuel fuel' (by omega) (by omega)]
        split
        · rfl
        · split
          · rfl
          · next hn =>
            have hn := length_parseLayoutNode hn
            rw [parseLayoutChildren_fuel fuel fuel' (by omega) (by omega)]

end

/-- Shares of the children from their widths or heights, the remainder in the last. -/
def layoutSizes (kind : LayoutKind) (children : List LayoutNode) : List ℕ :=
  let dims := children.map fun c =>
    match kind with
    | .horizontal => c.dims.width
    | .vertical => c.dims.height
  let total := dims.sum
  if total = 0 then List.replicate children.length (100 / max children.length 1)
  else
    let sizes := dims.map fun dim => dim * 100 / total
    sizes.dropLast ++ (sizes.getLast?.map (· + (100 - sizes.sum))).toList

mutual

/-- The tree of a layout over the first of the panes, and the panes it leaves; those it
took before it ran out of panes are gone. -/
def layoutNodeToNode : LayoutNode → List Node → Option Node × List Node
  | .leaf _, [] => (none, [])
  | .leaf _, pane :: panes => (some pane, panes)
  | .split a children, panes =>
    match layoutChildrenToNodes children panes with
    | (none, panes) => (none, panes)
    | (some nodes, panes) => (some (.split ⟨a.kind, layoutSizes a.kind children⟩ nodes), panes)

def layoutChildrenToNodes : List LayoutNode → List Node → Option (List Node) × List Node
  | [], panes => (some [], panes)
  | c :: cs, panes =>
    match layoutNodeToNode c panes with
    | (none, panes) => (none, panes)
    | (some node, panes) =>
      match layoutChildrenToNodes cs panes with
      | (none, panes) => (none, panes)
      | (some nodes, panes) => (some (node :: nodes), panes)

end

/-- The tree of a layout string over the panes, and the panes it leaves. -/
def parseTmuxLayoutString (layoutStr : Text) (panes : List Node) : Option Node × List Node :=
  match parseLayoutString layoutStr with
  | none => (none, panes)
  | some layout => layoutNodeToNode layout panes

theorem countLeaves_split (a : LayoutSplit) (children : List LayoutNode) :
    LayoutNode.countLeaves (.split a children) = (children.map LayoutNode.countLeaves).sum := by
  rw [LayoutNode.countLeaves, leaves_split, List.length_flatMap]
  rfl

/-- With as many panes as leaves or more, the first ones fill the leaves in order. -/
theorem layoutNodeToNode_of_le (layout : LayoutNode) {panes : List Node}
    (h : layout.countLeaves ≤ panes.length) :
    ∃ n, layoutNodeToNode layout panes = (some n, panes.drop layout.countLeaves) ∧
      leaves n = (panes.take layout.countLeaves).flatMap leaves := by
  induction layout using tree_induction generalizing panes with
  | leaf l =>
    cases panes with
    | nil => simp [LayoutNode.countLeaves] at h
    | cons pane panes => exact ⟨pane, rfl, by simp [LayoutNode.countLeaves]⟩
  | split a children ih =>
    have hchildren : ∀ (cs : List LayoutNode) (panes : List Node), (∀ c ∈ cs, c ∈ children) →
        (cs.map LayoutNode.countLeaves).sum ≤ panes.length →
        ∃ ns, layoutChildrenToNodes cs panes =
            (some ns, panes.drop (cs.map LayoutNode.countLeaves).sum) ∧
          ns.flatMap leaves =
            (panes.take (cs.map LayoutNode.countLeaves).sum).flatMap leaves := by
      intro cs
      induction cs with
      | nil => exact fun panes _ _ => ⟨[], rfl, rfl⟩
      | cons c cs ihcs =>
        intro panes hmem hsum
        rw [List.map_cons, List.sum_cons] at hsum ⊢
        have hle : c.countLeaves ≤ panes.length := by omega
        obtain ⟨n, hn, hleaves⟩ := ih c (hmem c List.mem_cons_self) hle
        obtain ⟨ns, hns, hnsleaves⟩ := ihcs (panes.drop c.countLeaves)
          (fun d hd => hmem d (List.mem_cons_of_mem c hd)) (by rw [List.length_drop]; omega)
        refine ⟨n :: ns, ?_, ?_⟩
        · rw [layoutChildrenToNodes, hn]
          simp only [hns, List.drop_drop]
        · rw [List.flatMap_cons, hleaves, hnsleaves, List.take_add, List.flatMap_append]
    rw [countLeaves_split] at h ⊢
    obtain ⟨ns, hns, hleaves⟩ := hchildren children panes (fun c hc => hc) h
    refine ⟨.split ⟨a.kind, layoutSizes a.kind children⟩ ns, ?_, ?_⟩
    · rw [layoutNodeToNode, hns]
    · rw [leaves_split, hleaves]

/-- With fewer panes than leaves, all of them are taken and there is no tree. -/
theorem layoutNodeToNode_of_lt (layout : LayoutNode) {panes : List Node}
    (h : panes.length < layout.countLeaves) : layoutNodeToNode layout panes = (none, []) := by
  induction layout using tree_induction generalizing panes with
  | leaf l =>
    cases panes with
    | nil => rfl
    | cons pane panes => simp [LayoutNode.countLeaves] at h
  | split a children ih =>
    have hchildren : ∀ (cs : List LayoutNode) (panes : List Node), (∀ c ∈ cs, c ∈ children) →
        panes.length < (cs.map LayoutNode.countLeaves).sum →
        layoutChildrenToNodes cs panes = (none, []) := by
      intro cs
      induction cs with
      | nil => intro panes _ hsum; simp at hsum
      | cons c cs ihcs =>
        intro panes hmem hsum
        rw [List.map_cons, List.sum_cons] at hsum
        rw [layoutChildrenToNodes]
        by_cases hc : panes.length < c.countLeaves
        · rw [ih c (hmem c List.mem_cons_self) hc]
        · obtain ⟨n, hn, -⟩ := layoutNodeToNode_of_le c (not_lt.1 hc)
          rw [hn]
          simp only
          rw [ihcs _ (fun d hd => hmem d (List.mem_cons_of_mem c hd))
            (by rw [List.length_drop]; omega)]
    rw [countLeaves_split] at h
    rw [layoutNodeToNode, hchildren children panes (fun c hc => hc) h]

end Winsmux.Layout
