import Winsmux.Ledger.Explain
import Winsmux.TextParts

/-!
# References a package may show

The worktree and the changed files of a run, as the checkpoint and child launch packages name
them. The filters look at the front of a text and for `/../` inside; a `..` at its end, and
anything after `.worktrees/`, passes.
-/
namespace Winsmux.Ledger
open Json

def slash (c : UInt8) : UInt8 := if c = 0x5c then 0x2f else c

/-- A text without the white space around it, its backslashes turned into slashes. -/
def normalizedRef (t : Text) : Text := (trim t).map slash

/-- What begins at the last occurrence of a part. -/
def rfind (part t : Text) : Option Text := t.tails.reverse.find? part.isPrefixOf

/-- The two fronts of a managed worktree. -/
def managed (normalized : Text) : Bool :=
  (utf8 ".worktrees/").isPrefixOf normalized || (utf8 "worktrees/").isPrefixOf normalized

def rooted (normalized : Text) : Bool :=
  normalized.contains 0x3a || normalized.head? = some 0x2f || normalized.head? = some 0x7e

/-- `public_worktree_ref` -/
def publicWorktreeRef (worktree : Text) : Text :=
  let normalized := normalizedRef worktree
  if normalized = [] then []
  else if managed normalized then normalized
  else if rooted normalized then
    match rfind (utf8 "/.worktrees/") normalized with
    | some found => found.drop 1
    | none => []
  else normalized

/-- What keeps a changed file out. -/
def withheld (normalized : Text) : Bool :=
  normalized = [] || rooted normalized || (utf8 "..").isPrefixOf normalized ||
    contains normalized (utf8 "/../")

def addChangedFile (files : List Text) (changedFile : Text) : List Text :=
  let normalized := normalizedRef changedFile
  if withheld normalized then files
  else if files.contains normalized then files
  else files ++ [normalized]

/-- `public_changed_files` -/
def publicChangedFiles (changedFiles : List Text) : List Text :=
  changedFiles.foldl addChangedFile []

inductive SessionType where
  | managedWorktree
  | unknown
  | sharedCheckout
  deriving DecidableEq

def sessionType (worktreeRef : Text) : SessionType :=
  if (utf8 ".worktrees/").isPrefixOf worktreeRef then .managedWorktree
  else if isBlank worktreeRef then .unknown
  else .sharedCheckout

def runWorktree (run : ExplainRun) : Text :=
  firstNonEmpty run.worktree run.experimentPacket.worktree

/-- What `run_checkpoint_package_value` says of places. -/
structure CheckpointPlaces where
  assignedWorktree : Text
  sessionType : SessionType
  changedFiles : List Text
  changedFileCount : ℕ
  snapshotChangedFiles : List Text
  hydrationWorktree : Text

def checkpointPlaces (run : ExplainRun) : CheckpointPlaces :=
  let worktreeRef := publicWorktreeRef (runWorktree run)
  let changedFiles := publicChangedFiles run.changedFiles
  ⟨worktreeRef, sessionType worktreeRef, changedFiles, changedFiles.length, changedFiles,
    worktreeRef⟩

/-- What `run_child_launch_contract_value` says of places. -/
structure ChildLaunchPlaces where
  worktree : Text
  launchDir : Text
  sessionType : SessionType

def childLaunchPlaces (run : ExplainRun) : ChildLaunchPlaces :=
  let worktreeRef := publicWorktreeRef (runWorktree run)
  ⟨worktreeRef, worktreeRef, sessionType worktreeRef⟩

/-- Every place the two packages of a run name. -/
def packageLocations (run : ExplainRun) : List Text :=
  let checkpoint := checkpointPlaces run
  let child := childLaunchPlaces run
  checkpoint.assignedWorktree :: checkpoint.hydrationWorktree :: child.worktree ::
    child.launchDir :: (checkpoint.changedFiles ++ checkpoint.snapshotChangedFiles)

/-- The names a path goes through. -/
def components (path : Text) : List Text := splitOn 0x2f path

def parent : Text := utf8 ".."

/-- A relative path with slashes that does not leave the directory it starts from. -/
structure LocalPath (path : Text) : Prop where
  nonempty : path ≠ []
  slashes : 0x5c ∉ path
  notAbsolute : path.head? ≠ some 0x2f
  notHome : path.head? ≠ some 0x7e
  noColon : 0x3a ∉ path
  noParent : parent ∉ components path

theorem contains_iff {t part : Text} : contains t part = true ↔ part <:+: t := by
  simp [contains, List.infix_iff_prefix_suffix, List.mem_tails, and_comm]

theorem rfind_some {part t found : Text} (h : rfind part t = some found) :
    part <+: found ∧ found <:+ t := by
  have hmem := List.mem_of_find?_eq_some h
  have hfront := List.find?_some h
  rw [List.mem_reverse, List.mem_tails] at hmem
  exact ⟨List.isPrefixOf_iff_prefix.mp hfront, hmem⟩

/-- Where a name that leads to the parent can stand. -/
theorem parent_mem_components_iff {path : Text} : parent ∈ components path ↔
    path = parent ∨ utf8 "../" <+: path ∨ utf8 "/.." <:+ path ∨ utf8 "/../" <:+: path := by
  have hsep : (0x2f : UInt8) ∉ parent := by decide
  have hfront (rest : Text) : parent ++ 0x2f :: rest = utf8 "../" ++ rest := rfl
  have hend (front : Text) : front ++ 0x2f :: parent = front ++ utf8 "/.." := rfl
  have hinside (front rest : Text) :
      front ++ 0x2f :: (utf8 "../" ++ rest) = front ++ utf8 "/../" ++ rest := by
    rw [List.append_assoc]
    rfl
  simp only [components, mem_splitOn_iff, hsep, not_false_eq_true, true_and, hfront, hend,
    hinside, List.IsPrefix, List.IsSuffix, List.IsInfix, or_assoc, exists_or, eq_comm]

theorem mem_slash {t : Text} : 0x5c ∉ t.map slash := by
  intro h
  obtain ⟨c, -, hc⟩ := List.mem_map.mp h
  unfold slash at hc
  split at hc
  · cases hc
  · next hne => exact hne hc

theorem space1_slash (c : UInt8) : space1 (slash c) = space1 c := by
  unfold slash
  split
  · next h =>
    subst h
    rfl
  · rfl

theorem space2_slash (a b : UInt8) : space2 (slash a) (slash b) = space2 a b := by
  unfold slash
  split_ifs with ha hb hb
  · subst ha hb
    rfl
  · subst ha
    rfl
  · subst hb
    simp [space2]
  · rfl

theorem space3_slash (a b c : UInt8) :
    space3 (slash a) (slash b) (slash c) = space3 a b c := by
  unfold slash
  split_ifs with ha hb hc hc hb hc hc
  all_goals subst_vars
  all_goals simp [space3]

theorem frontKept_map_slash {two : UInt8 → UInt8 → Bool} {three : UInt8 → UInt8 → UInt8 → Bool}
    (htwo : ∀ a b, two (slash a) (slash b) = two a b)
    (hthree : ∀ a b c, three (slash a) (slash b) (slash c) = three a b c) {t : Text}
    (h : FrontKept two three t) : FrontKept two three (t.map slash) := by
  obtain ⟨h1, h2, h3⟩ := h
  match t with
  | [] => simp [FrontKept]
  | [a] => simpa [FrontKept, space1_slash] using h1 a (by simp)
  | [a, b] =>
    have ha := h1 a (by simp)
    have hab := h2 a b (by simp)
    simp [FrontKept, space1_slash, htwo, ha, hab]
  | a :: b :: c :: t =>
    have ha := h1 a (by simp)
    have hab := h2 a b (by simp)
    have habc := h3 a b c (by simp)
    refine ⟨by simp [space1_slash, ha], by simp [htwo, hab], ?_⟩
    simp only [List.map_cons, List.cons_prefix_cons, List.nil_prefix, and_true, and_imp]
    rintro _ _ _ rfl rfl rfl
    rw [hthree, habc]

/-- A text that normalizing leaves as it is. -/
structure Normal (t : Text) : Prop where
  trimmed : Trimmed t
  slashes : 0x5c ∉ t

theorem normal_normalizedRef (t : Text) : Normal (normalizedRef t) := by
  obtain ⟨hstart, hfinish⟩ := trimmed_trim t
  refine ⟨⟨frontKept_map_slash space2_slash space3_slash hstart, ?_⟩, mem_slash⟩
  rw [normalizedRef, ← List.map_reverse]
  exact frontKept_map_slash (fun b a => space2_slash a b) (fun c b a => space3_slash a b c) hfinish

theorem Normal.normalizedRef_eq {t : Text} (h : Normal t) : normalizedRef t = t := by
  rw [normalizedRef, h.trimmed.trim_eq]
  have hid : ∀ c ∈ t, slash c = id c := by
    intro c hc
    have hne : c ≠ 0x5c := by
      rintro rfl
      exact h.slashes hc
    rw [slash, if_neg hne, id]
  exact (List.map_congr_left hid).trans (List.map_id t)

theorem frontKept_of_head {a : UInt8} {t : Text} (h1 : space1 a = false)
    (h2 : a ≠ 0xc2 ∧ a ≠ 0xe1 ∧ a ≠ 0xe2 ∧ a ≠ 0xe3) : FrontKept space2 space3 (a :: t) := by
  obtain ⟨hc2, he1, he2, he3⟩ := h2
  refine ⟨?_, ?_, ?_⟩
  · rintro b ⟨r, hr⟩
    obtain ⟨rfl, -⟩ := List.cons.inj hr
    exact h1
  · rintro b c ⟨r, hr⟩
    obtain ⟨rfl, -⟩ := List.cons.inj hr
    simp [space2, hc2]
  · rintro b c d ⟨r, hr⟩
    obtain ⟨rfl, -⟩ := List.cons.inj hr
    simp [space3, he1, he2, he3]

theorem managed_iff {t : Text} :
    managed t = true ↔ utf8 ".worktrees/" <+: t ∨ utf8 "worktrees/" <+: t := by
  simp [managed]

theorem rooted_eq_false_iff {t : Text} :
    rooted t = false ↔ 0x3a ∉ t ∧ t.head? ≠ some 0x2f ∧ t.head? ≠ some 0x7e := by
  simp [rooted, and_assoc]

theorem managed_head {t : Text} (h : managed t = true) :
    t ≠ [] ∧ t.head? ≠ some 0x2f ∧ t.head? ≠ some 0x7e := by
  obtain ⟨rest, rfl⟩ | ⟨rest, rfl⟩ := managed_iff.mp h
  · have hhead : (utf8 ".worktrees/" ++ rest).head? = some 0x2e := rfl
    rw [hhead]
    exact ⟨nofun, by decide, by decide⟩
  · have hhead : (utf8 "worktrees/" ++ rest).head? = some 0x77 := rfl
    rw [hhead]
    exact ⟨nofun, by decide, by decide⟩

/-- What is cut out of a rooted text begins like a managed worktree. -/
theorem rfind_managed {t found : Text} (h : rfind (utf8 "/.worktrees/") t = some found) :
    managed (found.drop 1) = true := by
  obtain ⟨rest, rfl⟩ := (rfind_some h).1
  exact managed_iff.mpr (.inl ⟨rest, rfl⟩)

theorem components_rfind {t found : Text} (h : rfind (utf8 "/.worktrees/") t = some found) :
    parent ∈ components (found.drop 1) ↔ parent ∈ components found := by
  obtain ⟨rest, rfl⟩ := (rfind_some h).1
  show _ ↔ parent ∈ splitOn 0x2f (0x2f :: (utf8 ".worktrees/" ++ rest))
  rw [splitOn, if_pos rfl, List.mem_cons]
  refine (or_iff_right ?_).symm
  decide

/-- The text of a worktree names a place inside the project. A `..` or a colon does harm only
where the text, or its end from the last `/.worktrees/` on, is taken as it is. -/
structure WorktreeSound (worktree : Text) : Prop where
  managed : managed (normalizedRef worktree) →
    0x3a ∉ normalizedRef worktree ∧ parent ∉ components (normalizedRef worktree)
  relative : ¬ Ledger.managed (normalizedRef worktree) → ¬ rooted (normalizedRef worktree) →
    parent ∉ components (normalizedRef worktree)
  rooted : ¬ Ledger.managed (normalizedRef worktree) → rooted (normalizedRef worktree) →
    ∀ found, rfind (utf8 "/.worktrees/") (normalizedRef worktree) = some found →
      0x3a ∉ found ∧ parent ∉ components found

theorem normal_suffix {s t : Text} (h : Normal t) (hs : s <:+ t) (hm : managed s = true) :
    Normal s := by
  refine ⟨⟨?_, ?_⟩, fun hmem => h.slashes (hs.subset hmem)⟩
  · obtain ⟨rest, rfl⟩ | ⟨rest, rfl⟩ := managed_iff.mp hm
    · exact frontKept_of_head (a := 0x2e) (by decide) (by decide)
    · exact frontKept_of_head (a := 0x77) (by decide) (by decide)
  · exact h.trimmed.finish.of_isPrefix (List.reverse_prefix.mpr hs)

theorem publicWorktreeRef_of_managed {worktree : Text}
    (h : managed (normalizedRef worktree) = true) :
    publicWorktreeRef worktree = normalizedRef worktree := by
  unfold publicWorktreeRef
  simp only [(managed_head h).1, h, if_true, if_false]

theorem publicWorktreeRef_of_relative {worktree : Text}
    (hm : managed (normalizedRef worktree) = false)
    (hr : rooted (normalizedRef worktree) = false) :
    publicWorktreeRef worktree = normalizedRef worktree := by
  unfold publicWorktreeRef
  simp only [hm, hr, Bool.false_eq_true, if_false]
  split
  · next h => exact h.symm
  · rfl

theorem publicWorktreeRef_of_rooted {worktree : Text}
    (hm : managed (normalizedRef worktree) = false)
    (hr : rooted (normalizedRef worktree) = true) :
    publicWorktreeRef worktree =
      ((rfind (utf8 "/.worktrees/") (normalizedRef worktree)).map (·.drop 1)).getD [] := by
  have hne : normalizedRef worktree ≠ [] := by
    intro h
    rw [h] at hr
    cases hr
  unfold publicWorktreeRef
  simp only [hne, hm, hr, Bool.false_eq_true, if_false, if_true]
  cases rfind (utf8 "/.worktrees/") (normalizedRef worktree) <;> rfl

/-- What a reference is, whichever way it was found. -/
theorem publicWorktreeRef_cases (worktree : Text) : publicWorktreeRef worktree = [] ∨
    Normal (publicWorktreeRef worktree) ∧ (managed (publicWorktreeRef worktree) = true ∨
      managed (publicWorktreeRef worktree) = false ∧
        rooted (publicWorktreeRef worktree) = false) := by
  have hnormal := normal_normalizedRef worktree
  cases hm : managed (normalizedRef worktree) with
  | true =>
    rw [publicWorktreeRef_of_managed hm]
    exact .inr ⟨hnormal, .inl hm⟩
  | false =>
    cases hr : rooted (normalizedRef worktree) with
    | false =>
      rw [publicWorktreeRef_of_relative hm hr]
      exact .inr ⟨hnormal, .inr ⟨hm, hr⟩⟩
    | true =>
      rw [publicWorktreeRef_of_rooted hm hr]
      cases hfound : rfind (utf8 "/.worktrees/") (normalizedRef worktree) with
      | none => exact .inl rfl
      | some found =>
        have hmanaged := rfind_managed hfound
        have hsuffix := (List.drop_suffix 1 found).trans (rfind_some hfound).2
        exact .inr ⟨normal_suffix hnormal hsuffix hmanaged, .inl hmanaged⟩

/-- A reference is its own reference. -/
theorem publicWorktreeRef_again (worktree : Text) :
    publicWorktreeRef (publicWorktreeRef worktree) = publicWorktreeRef worktree := by
  obtain h | ⟨hnormal, h⟩ := publicWorktreeRef_cases worktree
  · rw [h]
    rfl
  · have heq := hnormal.normalizedRef_eq
    obtain hm | ⟨hm, hr⟩ := h
    · exact (publicWorktreeRef_of_managed (heq.symm ▸ hm)).trans heq
    · exact (publicWorktreeRef_of_relative (heq.symm ▸ hm) (heq.symm ▸ hr)).trans heq

theorem publicWorktreeRef_local_iff (worktree : Text) :
    publicWorktreeRef worktree = [] ∨ LocalPath (publicWorktreeRef worktree) ↔
      WorktreeSound worktree := by
  have hnormal := normal_normalizedRef worktree
  cases hm : managed (normalizedRef worktree) with
  | true =>
    obtain ⟨hne, hslash, hhome⟩ := managed_head hm
    rw [publicWorktreeRef_of_managed hm]
    constructor
    · rintro (h | h)
      · exact absurd h hne
      · exact ⟨fun _ => ⟨h.noColon, h.noParent⟩, fun h' => absurd hm h', fun h' => absurd hm h'⟩
    · intro h
      obtain ⟨hcolon, hparent⟩ := h.managed hm
      exact .inr ⟨hne, hnormal.slashes, hslash, hhome, hcolon, hparent⟩
  | false =>
    have hm' : ¬ managed (normalizedRef worktree) = true := by simp [hm]
    cases hr : rooted (normalizedRef worktree) with
    | false =>
      have hr' : ¬ rooted (normalizedRef worktree) = true := by simp [hr]
      obtain ⟨hcolon, hslash, hhome⟩ := rooted_eq_false_iff.mp hr
      rw [publicWorktreeRef_of_relative hm hr]
      constructor
      · rintro (h | h)
        · refine ⟨fun h' => absurd h' hm', fun _ _ => ?_, fun _ h' => absurd h' hr'⟩
          rw [h]
          decide
        · exact ⟨fun h' => absurd h' hm', fun _ _ => h.noParent, fun _ h' => absurd h' hr'⟩
      · intro h
        by_cases hne : normalizedRef worktree = []
        · exact .inl hne
        · exact .inr ⟨hne, hnormal.slashes, hslash, hhome, hcolon, h.relative hm' hr'⟩
    | true =>
      have hr' : ¬ ¬ rooted (normalizedRef worktree) = true := by simp [hr]
      rw [publicWorktreeRef_of_rooted hm hr]
      cases hfound : rfind (utf8 "/.worktrees/") (normalizedRef worktree) with
      | none =>
        refine iff_of_true (.inl rfl) ⟨fun h' => absurd h' hm', fun _ h' => absurd h' hr', ?_⟩
        intro _ _ found hfound'
        rw [hfound] at hfound'
        cases hfound'
      | some found =>
        have hmanaged := rfind_managed hfound
        have hsuffix := (List.drop_suffix 1 found).trans (rfind_some hfound).2
        obtain ⟨hne, hslash, hhome⟩ := managed_head hmanaged
        have hcolon : 0x3a ∉ found.drop 1 ↔ 0x3a ∉ found := by
          obtain ⟨rest, rfl⟩ := (rfind_some hfound).1
          show _ ↔ (0x3a : UInt8) ∉ 0x2f :: (utf8 "/.worktrees/" ++ rest).drop 1
          rw [List.mem_cons, not_or]
          exact (and_iff_right (by decide)).symm
        show found.drop 1 = [] ∨ LocalPath (found.drop 1) ↔ _
        constructor
        · rintro (h | h)
          · exact absurd h hne
          · refine ⟨fun h' => absurd h' hm', fun _ h' => absurd hr h', fun _ _ found' h' => ?_⟩
            obtain rfl := Option.some.inj (hfound.symm.trans h')
            exact ⟨hcolon.mp h.noColon, fun h' => h.noParent ((components_rfind hfound).mpr h')⟩
        · intro h
          obtain ⟨hcolon', hparent⟩ := h.rooted hm' hr found hfound
          exact .inr ⟨hne, fun h' => hnormal.slashes (hsuffix.subset h'), hslash, hhome,
            hcolon.mpr hcolon', fun h' => hparent ((components_rfind hfound).mp h')⟩

theorem publicChangedFiles_concat (files : List Text) (file : Text) :
    publicChangedFiles (files ++ [file]) = addChangedFile (publicChangedFiles files) file := by
  rw [publicChangedFiles, List.foldl_append, List.foldl_cons, List.foldl_nil, publicChangedFiles]

/-- Of the normalized texts, those that are not withheld are listed. -/
theorem mem_publicChangedFiles {files : List Text} {f : Text} :
    f ∈ publicChangedFiles files ↔ f ∈ files.map normalizedRef ∧ withheld f = false := by
  induction files using List.reverseRecOn with
  | nil => simp [publicChangedFiles]
  | append_singleton files file ih =>
    rw [publicChangedFiles_concat, List.map_append, List.mem_append, List.map_singleton,
      List.mem_singleton, or_and_right, ← ih]
    unfold addChangedFile
    dsimp only
    split_ifs with hwithheld hthere
    · refine (or_iff_left ?_).symm
      rintro ⟨rfl, h⟩
      rw [hwithheld] at h
      cases h
    · refine (or_iff_left_of_imp ?_).symm
      rintro ⟨rfl, -⟩
      exact List.contains_iff_mem.mp hthere
    · rw [List.mem_append, List.mem_singleton]
      refine or_congr_right ⟨?_, And.left⟩
      rintro rfl
      exact ⟨rfl, eq_false_of_ne_true hwithheld⟩

/-- Each file is listed once, in the order in which the files first occur. -/
theorem publicChangedFiles_pairwise (files : List Text) :
    (publicChangedFiles files).Pairwise fun f g =>
      (files.map normalizedRef).idxOf f < (files.map normalizedRef).idxOf g := by
  induction files using List.reverseRecOn with
  | nil => exact .nil
  | append_singleton files file ih =>
    have hstill : (publicChangedFiles files).Pairwise fun f g =>
        ((files ++ [file]).map normalizedRef).idxOf f <
          ((files ++ [file]).map normalizedRef).idxOf g := by
      refine ih.imp_of_mem fun hf hg h => ?_
      rw [List.map_append, List.idxOf_append_of_mem (mem_publicChangedFiles.mp hf).1,
        List.idxOf_append_of_mem (mem_publicChangedFiles.mp hg).1]
      exact h
    rw [publicChangedFiles_concat]
    unfold addChangedFile
    dsimp only
    split_ifs with hwithheld hthere
    · exact hstill
    · exact hstill
    · refine List.pairwise_append.mpr ⟨hstill, List.pairwise_singleton _ _, ?_⟩
      intro f hf g hg
      obtain rfl := List.mem_singleton.mp hg
      have hnew : normalizedRef file ∉ files.map normalizedRef := fun h =>
        hthere (List.contains_iff_mem.mpr
          (mem_publicChangedFiles.mpr ⟨h, eq_false_of_ne_true hwithheld⟩))
      have hold := (mem_publicChangedFiles.mp hf).1
      rw [List.map_append, List.idxOf_append_of_mem hold, List.idxOf_append_of_notMem hnew]
      exact Nat.lt_of_lt_of_le (List.idxOf_lt_length_of_mem hold) (Nat.le_add_right _ _)

theorem publicChangedFiles_nodup (files : List Text) : (publicChangedFiles files).Nodup :=
  (publicChangedFiles_pairwise files).imp fun h heq => by
    rw [heq] at h
    exact lt_irrefl _ h

/-- A list of distinct normal texts, none of them withheld, is listed as it is. -/
theorem publicChangedFiles_eq_self {files : List Text} (hnodup : files.Nodup)
    (hnormal : ∀ f ∈ files, Normal f ∧ withheld f = false) : publicChangedFiles files = files := by
  induction files using List.reverseRecOn with
  | nil => rfl
  | append_singleton files file ih =>
    obtain ⟨hfiles, -, hdisjoint⟩ := List.nodup_append.mp hnodup
    obtain ⟨hfile, hwithheld⟩ := hnormal file (by simp)
    have hnew : file ∉ files := fun h => hdisjoint file h file (by simp) rfl
    rw [publicChangedFiles_concat, ih hfiles fun f hf => hnormal f (by simp [hf])]
    unfold addChangedFile
    simp [hfile.normalizedRef_eq, hwithheld, hnew]

theorem publicChangedFiles_again (files : List Text) :
    publicChangedFiles (publicChangedFiles files) = publicChangedFiles files := by
  refine publicChangedFiles_eq_self (publicChangedFiles_nodup files) fun f hf => ?_
  obtain ⟨hmem, hwithheld⟩ := mem_publicChangedFiles.mp hf
  obtain ⟨file, -, rfl⟩ := List.mem_map.mp hmem
  exact ⟨normal_normalizedRef file, hwithheld⟩

theorem withheld_eq_false_iff {t : Text} : withheld t = false ↔
    t ≠ [] ∧ rooted t = false ∧ ¬ parent <+: t ∧ ¬ utf8 "/../" <:+: t := by
  simp only [withheld, Bool.or_eq_false_iff, decide_eq_false_iff_not, and_assoc, ne_eq, parent,
    ← contains_iff, Bool.not_eq_true, ← List.isPrefixOf_iff_prefix]

/-- A normal text that is not withheld leaves the project exactly where it ends in `/..`. -/
theorem local_iff_of_listed {t : Text} (hnormal : Normal t) (h : withheld t = false) :
    LocalPath t ↔ ¬ utf8 "/.." <:+ t := by
  obtain ⟨hne, hrooted, hfront, hinside⟩ := withheld_eq_false_iff.mp h
  obtain ⟨hcolon, hslash, hhome⟩ := rooted_eq_false_iff.mp hrooted
  have hparent : parent ∈ components t ↔ utf8 "/.." <:+ t := by
    rw [parent_mem_components_iff]
    constructor
    · rintro (rfl | h | h | h)
      · exact absurd List.prefix_rfl hfront
      · exact absurd (List.IsPrefix.trans ⟨[0x2f], rfl⟩ h) hfront
      · exact h
      · exact absurd h hinside
    · exact fun h => .inr (.inr (.inl h))
  rw [← hparent]
  exact ⟨LocalPath.noParent, fun h' => ⟨hne, hnormal.slashes, hslash, hhome, hcolon, h'⟩⟩

/-- Every text that ends in `/..` is kept out for another reason. -/
def ChangedFilesSound (files : List Text) : Prop :=
  ∀ file ∈ files, utf8 "/.." <:+ normalizedRef file → withheld (normalizedRef file) = true

theorem publicChangedFiles_local_iff (files : List Text) :
    (∀ f ∈ publicChangedFiles files, LocalPath f) ↔ ChangedFilesSound files := by
  constructor
  · intro h file hfile hend
    by_contra hwithheld
    have hlisted := mem_publicChangedFiles.mpr
      ⟨List.mem_map_of_mem (f := normalizedRef) hfile, eq_false_of_ne_true hwithheld⟩
    exact (local_iff_of_listed (normal_normalizedRef file) (eq_false_of_ne_true hwithheld)).mp
      (h _ hlisted) hend
  · intro h f hf
    obtain ⟨hmem, hwithheld⟩ := mem_publicChangedFiles.mp hf
    obtain ⟨file, hfile, rfl⟩ := List.mem_map.mp hmem
    refine (local_iff_of_listed (normal_normalizedRef file) hwithheld).mpr fun hend => ?_
    rw [h file hfile hend] at hwithheld
    cases hwithheld

/-- What the references of a run promise. -/
structure PublicRefs (worktree : Text) (files : List Text) : Prop where
  worktree_local : publicWorktreeRef worktree = [] ∨ LocalPath (publicWorktreeRef worktree)
  worktree_again : publicWorktreeRef (publicWorktreeRef worktree) = publicWorktreeRef worktree
  files_local : ∀ f ∈ publicChangedFiles files, LocalPath f
  files_given : ∀ f ∈ publicChangedFiles files, f ∈ files.map normalizedRef
  files_nodup : (publicChangedFiles files).Nodup
  files_order : (publicChangedFiles files).Pairwise fun f g =>
    (files.map normalizedRef).idxOf f < (files.map normalizedRef).idxOf g
  files_again : publicChangedFiles (publicChangedFiles files) = publicChangedFiles files
  packages : ∀ run : ExplainRun, runWorktree run = worktree → run.changedFiles = files →
    ∀ location ∈ packageLocations run, location = [] ∨ LocalPath location

theorem mem_packageLocations {run : ExplainRun} {location : Text} :
    location ∈ packageLocations run ↔ location = publicWorktreeRef (runWorktree run) ∨
      location ∈ publicChangedFiles run.changedFiles := by
  simp [packageLocations, checkpointPlaces, childLaunchPlaces]

/-- The references of a run stay inside the project exactly where its worktree does and none
of the listed files ends in `/..`. -/
theorem publicRefs_iff (worktree : Text) (files : List Text) :
    PublicRefs worktree files ↔ WorktreeSound worktree ∧ ChangedFilesSound files := by
  constructor
  · intro h
    exact ⟨(publicWorktreeRef_local_iff worktree).mp h.worktree_local,
      (publicChangedFiles_local_iff files).mp h.files_local⟩
  · rintro ⟨hworktree, hfiles⟩
    have hworktree' := (publicWorktreeRef_local_iff worktree).mpr hworktree
    have hfiles' := (publicChangedFiles_local_iff files).mpr hfiles
    refine ⟨hworktree', publicWorktreeRef_again worktree, hfiles',
      fun f hf => (mem_publicChangedFiles.mp hf).1, publicChangedFiles_nodup files,
      publicChangedFiles_pairwise files, publicChangedFiles_again files, ?_⟩
    rintro run rfl rfl location hlocation
    obtain rfl | h := mem_packageLocations.mp hlocation
    · exact hworktree'
    · exact .inr (hfiles' location h)

/-- `../x` is shown as a worktree, and `a/..` as a changed file. -/
theorem not_publicRefs_parent : ¬ ∀ worktree files, PublicRefs worktree files := by
  intro h
  have hrefs := h (utf8 "../x") [utf8 "a/.."]
  have hfiles := hrefs.files_local (utf8 "a/..") (by decide)
  exact hfiles.noParent (by decide)

end Winsmux.Ledger
