import Winsmux.Ledger.EventTime

/-!
# The inbox and the order of the log

The inbox acts on the last line of each entity. It is the same for every order of the log
just in case no event that it acts on shares its entity, or the key of its item.
-/
namespace Winsmux.Ledger
open Json

section
variable {key : Text} {e f : EventRecord} {acc : List (Text × EventRecord)} {events : List EventRecord}

theorem mem_putLatest {p : Text × EventRecord} (h : p ∈ putLatest key e acc) : p = (key, e) ∨ p ∈ acc := by
  induction acc with
  | nil => exact .inl (List.mem_singleton.mp h)
  | cons d acc ih =>
    obtain ⟨k, g⟩ := d
    unfold putLatest at h
    split_ifs at h with hk
    · rcases List.mem_cons.mp h with h | h
      · exact .inl (hk ▸ h)
      · exact .inr (List.mem_cons_of_mem _ h)
    · rcases List.mem_cons.mp h with h | h
      · exact .inr (h ▸ List.mem_cons_self ..)
      · exact (ih h).imp_right (List.mem_cons_of_mem _)

theorem mem_putLatest_self : (key, e) ∈ putLatest key e acc := by
  induction acc with
  | nil => simp [putLatest]
  | cons d acc ih =>
    unfold putLatest
    split_ifs with hk
    · simp [hk]
    · exact List.mem_cons_of_mem _ ih

theorem mem_putLatest_of_ne {p : Text × EventRecord} (h : p ∈ acc) (hk : p.1 ≠ key) :
    p ∈ putLatest key e acc := by
  induction acc with
  | nil => cases h
  | cons d acc ih =>
    unfold putLatest
    rcases List.mem_cons.mp h with rfl | h
    · simp [hk]
    · split_ifs
      · exact List.mem_cons_of_mem _ h
      · exact List.mem_cons_of_mem _ (ih h)

theorem putLatest_new (h : ∀ p ∈ acc, p.1 ≠ key) : putLatest key e acc = acc ++ [(key, e)] := by
  induction acc with
  | nil => rfl
  | cons d acc ih =>
    rw [putLatest, if_neg (h d (List.mem_cons_self ..)), ih fun p hp => h p (List.mem_cons_of_mem _ hp)]
    rfl

theorem putLatest_again (h : ∀ p ∈ acc, p.1 ≠ key) :
    putLatest key e (acc ++ [(key, f)]) = acc ++ [(key, e)] := by
  induction acc with
  | nil => simp [putLatest]
  | cons d acc ih =>
    rw [List.cons_append, putLatest, if_neg (h d (List.mem_cons_self ..)),
      ih fun p hp => h p (List.mem_cons_of_mem _ hp)]
    rfl

/-- The latest events by entity, after some more lines. -/
def latestByEntity (acc : List (Text × EventRecord)) (events : List EventRecord) : List (Text × EventRecord) :=
  events.foldl (fun acc e => putLatest (inboxEventEntityKey e) e acc) acc

theorem mem_latestByEntity {p : Text × EventRecord} (h : p ∈ latestByEntity acc events) :
    p ∈ acc ∨ p.2 ∈ events ∧ p.1 = inboxEventEntityKey p.2 := by
  induction events generalizing acc with
  | nil => exact .inl h
  | cons e events ih =>
    rcases ih h with hacc | ⟨hmem, hk⟩
    · rcases mem_putLatest hacc with rfl | hacc
      · exact .inr ⟨List.mem_cons_self .., rfl⟩
      · exact .inl hacc
    · exact .inr ⟨List.mem_cons_of_mem _ hmem, hk⟩

theorem mem_latestByEntity_of_ne {p : Text × EventRecord} (h : p ∈ acc)
    (hk : ∀ e ∈ events, p.1 ≠ inboxEventEntityKey e) : p ∈ latestByEntity acc events := by
  induction events generalizing acc with
  | nil => exact h
  | cons e events ih =>
    exact ih (mem_putLatest_of_ne h (hk e (List.mem_cons_self ..))) fun f hf => hk f (List.mem_cons_of_mem _ hf)

theorem mem_of_mem_inboxActiveEvents (h : e ∈ inboxActiveEvents events) : e ∈ events := by
  obtain ⟨p, hp, rfl⟩ := List.mem_map.mp h
  rcases mem_latestByEntity hp with hp | ⟨hmem, -⟩
  · cases hp
  · exact hmem

/-- An event whose entity no other has is the last of it. -/
theorem mem_inboxActiveEvents (he : e ∈ events)
    (h : ∀ f ∈ events, f ≠ e → inboxEventEntityKey e ≠ inboxEventEntityKey f) (hn : events.Nodup) :
    e ∈ inboxActiveEvents events := by
  obtain ⟨before, after, rfl⟩ := List.append_of_mem he
  have hlast : (inboxEventEntityKey e, e) ∈ latestByEntity [] (before ++ e :: after) := by
    rw [latestByEntity, List.foldl_append, List.foldl_cons]
    refine mem_latestByEntity_of_ne mem_putLatest_self fun f hf => h f (by simp [hf]) ?_
    rintro rfl
    exact (List.nodup_cons.mp (List.nodup_append.mp hn).2.1).1 hf
  exact List.mem_map.mpr ⟨_, hlast, rfl⟩

/-- One entity's lines at the end, an event of it last: that event is the last active one. -/
theorem inboxActiveEvents_append {others same : List EventRecord}
    (hothers : ∀ f ∈ others, inboxEventEntityKey f ≠ inboxEventEntityKey e)
    (hsame : ∀ f ∈ same, inboxEventEntityKey f = inboxEventEntityKey e) :
    inboxActiveEvents (others ++ same ++ [e]) = inboxActiveEvents others ++ [e] := by
  have hfresh : ∀ p ∈ latestByEntity [] others, p.1 ≠ inboxEventEntityKey e := by
    intro p hp
    rcases mem_latestByEntity hp with hp | ⟨hmem, hk⟩
    · cases hp
    · exact hk.trans_ne (hothers _ hmem)
  have hend : latestByEntity [] (others ++ same ++ [e]) =
      latestByEntity [] others ++ [(inboxEventEntityKey e, e)] := by
    have hsplit : latestByEntity [] (others ++ same) = latestByEntity [] others ∨
        ∃ f, latestByEntity [] (others ++ same) = latestByEntity [] others ++ [(inboxEventEntityKey e, f)] := by
      induction same using List.reverseRecOn with
      | nil => simp
      | append_singleton same f ih =>
        have hkey : inboxEventEntityKey f = inboxEventEntityKey e := hsame f (by simp)
        have hstep : latestByEntity [] (others ++ (same ++ [f])) =
            putLatest (inboxEventEntityKey e) f (latestByEntity [] (others ++ same)) := by
          rw [latestByEntity, ← List.append_assoc, List.foldl_append, List.foldl_cons, List.foldl_nil, hkey]
          rfl
        rw [hstep]
        rcases ih fun g hg => hsame g (by simp [hg]) with hacc | ⟨g, hacc⟩ <;> rw [hacc]
        · exact .inr ⟨f, putLatest_new hfresh⟩
        · exact .inr ⟨f, putLatest_again hfresh⟩
    have hstep : latestByEntity [] (others ++ same ++ [e]) =
        putLatest (inboxEventEntityKey e) e (latestByEntity [] (others ++ same)) := by
      rw [latestByEntity, List.foldl_append]
      rfl
    rw [hstep]
    rcases hsplit with hacc | ⟨g, hacc⟩ <;> rw [hacc]
    · exact putLatest_new hfresh
    · exact putLatest_again hfresh
  have hmap := congrArg (List.map Prod.snd) hend
  rwa [List.map_append] at hmap

end

theorem fromEvent_some {e : EventRecord} {item : InboxItem} (h : InboxItem.fromEvent e = some item) :
    item.timestamp = e.timestamp ∧ item.source = .events := by
  obtain ⟨kind, -, rfl⟩ := Option.map_eq_some_iff.mp h
  exact ⟨rfl, rfl⟩

theorem source_of_mem_manifestItems {pane : Pane} {p : Text × InboxItem} (h : p ∈ manifestItems pane) :
    p.2.source = .manifest := by
  unfold manifestItems at h
  simp only [List.mem_append, List.mem_ite_nil_right, List.mem_singleton] at h
  obtain (⟨-, rfl⟩ | ⟨-, rfl⟩) | ⟨-, rfl⟩ := h <;> rfl

/-- The items of a snapshot by key. -/
def itemsByKey (s : Snapshot) : List (Text × InboxItem) :=
  (s.panes.flatMap manifestItems ++ eventItems s.events).foldl (fun acc entry => insertKey entry.1 entry.2 acc) []

theorem sorted_itemsByKey (s : Snapshot) : Sorted (itemsByKey s) := sorted_foldl_insertKey .nil

theorem mem_eventItems {events : List EventRecord} {p : Text × InboxItem} :
    p ∈ eventItems events ↔
      p.1 = inboxItemKey p.2 ∧ ∃ e ∈ inboxActiveEvents events, InboxItem.fromEvent e = some p.2 := by
  constructor
  · intro h
    obtain ⟨item, hitem, rfl⟩ := List.mem_map.mp h
    exact ⟨rfl, List.mem_filterMap.mp hitem⟩
  · rintro ⟨hkey, hitem⟩
    exact List.mem_map.mpr ⟨p.2, List.mem_filterMap.mpr hitem, Prod.ext hkey.symm rfl⟩

section
variable {s : Snapshot} {e f : EventRecord} {item : InboxItem}

theorem mem_inboxProjection {calendar : Calendar} :
    item ∈ inboxProjection calendar s ↔ ∃ key, (key, item) ∈ itemsByKey s := by
  rw [inboxProjection, List.mem_insertionSort]
  constructor
  · intro h
    obtain ⟨p, hp, rfl⟩ := List.mem_map.mp h
    exact ⟨p.1, hp⟩
  · rintro ⟨key, hp⟩
    exact List.mem_map.mpr ⟨_, hp, rfl⟩

/-- An item of an event is under its key, and the event is active. -/
theorem event_of_mem_itemsByKey {key : Text} (h : (key, item) ∈ itemsByKey s) (hsource : item.source = .events) :
    key = inboxItemKey item ∧ ∃ e ∈ inboxActiveEvents s.events, InboxItem.fromEvent e = some item := by
  rcases mem_foldl_insertKey h with h | h
  · rcases List.mem_append.mp h with h | h
    · obtain ⟨pane, -, hp⟩ := List.mem_flatMap.mp h
      exact absurd ((source_of_mem_manifestItems hp).symm.trans hsource) nofun
    · exact mem_eventItems.mp h
  · cases h

/-- An event whose lines stand at the end is heard. -/
theorem mem_itemsByKey_last {others same : List EventRecord} (hs : s.events = others ++ same ++ [e])
    (hothers : ∀ f ∈ others, inboxEventEntityKey f ≠ inboxEventEntityKey e)
    (hsame : ∀ f ∈ same, inboxEventEntityKey f = inboxEventEntityKey e)
    (he : InboxItem.fromEvent e = some item) : (inboxItemKey item, item) ∈ itemsByKey s := by
  have hitems : eventItems s.events = eventItems others ++ [(inboxItemKey item, item)] := by
    rw [eventItems, hs, inboxActiveEvents_append hothers hsame, List.filterMap_append, List.map_append,
      List.filterMap_cons_some he]
    rfl
  rw [itemsByKey, hitems, ← List.append_assoc, List.foldl_append]
  exact mem_insertKey_self

end

section
variable {τ : Type} {clock : Clock τ} {s s' : Snapshot} {events events' : List EventRecord}
  {e f : EventRecord} {item : InboxItem}

theorem Dated.nodup (h : Dated clock events) : events.Nodup :=
  h.distinct.imp fun hne he => hne (congrArg (fun e => clock.parse e.timestamp) he)

theorem Dated.perm (h : Dated clock events) (hp : events'.Perm events) : Dated clock events' where
  parsed e he := h.parsed e (hp.mem_iff.mp he)
  distinct := (hp.symm.pairwise_iff fun hne => hne.symm).mp h.distinct

/-- The time of an event tells it. -/
theorem Dated.eq_of_timestamp (h : Dated clock events) (he : e ∈ events) (hf : f ∈ events)
    (ht : e.timestamp = f.timestamp) : e = f := by
  have hnodup : (events.map fun e => clock.parse e.timestamp).Nodup := List.pairwise_map.mpr h.distinct
  exact List.inj_on_of_nodup_map hnodup he hf (congrArg clock.parse ht)

/-- The lines of one entity moved to the end, an event of it last. -/
theorem exists_reordered_last (he : e ∈ s.events) : ∃ s', Reordered s s' ∧ ∃ others same,
    s'.events = others ++ same ++ [e] ∧ (∀ f ∈ others, inboxEventEntityKey f ≠ inboxEventEntityKey e) ∧
      ∀ f ∈ same, inboxEventEntityKey f = inboxEventEntityKey e := by
  obtain ⟨before, after, hsplit⟩ := List.append_of_mem he
  let others := (before ++ after).filter fun f => !(inboxEventEntityKey f == inboxEventEntityKey e)
  let same := (before ++ after).filter fun f => inboxEventEntityKey f == inboxEventEntityKey e
  have hperm : (others ++ same ++ [e]).Perm s.events := by
    have hparts : (others ++ same).Perm (before ++ after) :=
      List.perm_append_comm.trans (List.filter_append_perm _ _)
    rw [hsplit]
    exact (hparts.append_right [e]).trans (List.perm_middle.trans (List.perm_append_singleton ..).symm).symm
  refine ⟨{ s with
    events := others ++ same ++ [e]
    events_named := fun f hf => s.events_named f (hperm.mem_iff.mp hf)
    events_session := fun f hf => s.events_session f (hperm.mem_iff.mp hf) }, ⟨rfl, rfl, hperm⟩, others, same,
    rfl, fun f hf => ?_, fun f hf => ?_⟩
  · simpa using (List.mem_filter.mp hf).2
  · simpa using (List.mem_filter.mp hf).2

/-- An event is not heard where another of its entity, or of its key, comes last. -/
theorem not_mem_inbox_last {others same : List EventRecord} (hdated : Dated clock s.events)
    (hs : s.events = others ++ same ++ [f])
    (hothers : ∀ g ∈ others, inboxEventEntityKey g ≠ inboxEventEntityKey f)
    (hsame : ∀ g ∈ same, inboxEventEntityKey g = inboxEventEntityKey f) (he : e ∈ s.events) (hne : e ≠ f)
    (hitem : InboxItem.fromEvent e = some item)
    (hclash : inboxEventEntityKey e = inboxEventEntityKey f ∨
      ∃ item', InboxItem.fromEvent f = some item' ∧ inboxItemKey item = inboxItemKey item') :
    item ∉ inboxProjection clock.calendar s := by
  intro hmem
  obtain ⟨key, hkey⟩ := mem_inboxProjection.mp hmem
  obtain ⟨rfl, g, hg, hgitem⟩ := event_of_mem_itemsByKey hkey (fromEvent_some hitem).2
  obtain rfl : g = e := hdated.eq_of_timestamp (mem_of_mem_inboxActiveEvents hg) he
    ((fromEvent_some hgitem).1.symm.trans (fromEvent_some hitem).1)
  rcases hclash with hentity | ⟨item', hitem', hsamekey⟩
  · rw [hs, inboxActiveEvents_append hothers hsame] at hg
    rcases List.mem_append.mp hg with hg | hg
    · exact hothers g (mem_of_mem_inboxActiveEvents hg) hentity
    · exact hne (List.mem_singleton.mp hg)
  · have hlast := mem_itemsByKey_last hs hothers hsame hitem'
    have hpair := (sorted_itemsByKey s).eq_of_key hkey hlast hsamekey
    have hf : f ∈ s.events := by simp [hs]
    refine hne (hdated.eq_of_timestamp he hf ?_)
    rw [← (fromEvent_some hitem).1, ← (fromEvent_some hitem').1, congrArg (fun p => p.2.timestamp) hpair]

/-- Each event the inbox acts on has its own entity and key, so every order gives it. -/
theorem itemsByKey_congr (hdated : Dated clock s.events) (h : SingleVoiced s.events) (hr : Reordered s s') :
    itemsByKey s' = itemsByKey s := by
  have hmem : ∀ {t : Snapshot}, t.events.Perm s.events → ∀ p, p ∈ eventItems t.events ↔
      p.1 = inboxItemKey p.2 ∧ ∃ e ∈ s.events, InboxItem.fromEvent e = some p.2 := by
    intro t ht p
    rw [mem_eventItems]
    refine and_congr_right fun _ => ⟨?_, ?_⟩
    · rintro ⟨e, he, hitem⟩
      exact ⟨e, ht.mem_iff.mp (mem_of_mem_inboxActiveEvents he), hitem⟩
    · rintro ⟨e, he, hitem⟩
      refine ⟨e, mem_inboxActiveEvents (ht.mem_iff.mpr he) (fun f hf hne => ?_) (hdated.perm ht).nodup, hitem⟩
      exact (h e he f (ht.mem_iff.mp hf) (Ne.symm hne) p.2 hitem).1
  rw [itemsByKey, itemsByKey, hr.panes, List.foldl_append, List.foldl_append]
  refine foldl_insertKey_congr (fun p => (hmem hr.events p).trans (hmem (.refl _) p).symm) (fun p hp q hq hk => ?_)
    (sorted_foldl_insertKey .nil)
  obtain ⟨hpkey, e, he, hpitem⟩ := (hmem hr.events p).mp hp
  obtain ⟨hqkey, f, hf, hqitem⟩ := (hmem hr.events q).mp hq
  by_cases hne : f = e
  · subst hne
    exact Prod.ext hk (Option.some.inj (hqitem.symm.trans hpitem))
  · exact absurd (hqkey.symm.trans (hk.trans hpkey)) ((h f hf e he hne q.2 hqitem).2 p.2 hpitem)

/-- The inbox is the same for every order of the log just in case each event it acts on
has its own entity and key. -/
theorem inbox_reordered_iff (hdated : Dated clock s.events) :
    (∀ s', Reordered s s' → inboxProjection clock.calendar s' = inboxProjection clock.calendar s) ↔
      SingleVoiced s.events := by
  constructor
  · intro h e he f hf hne item hitem
    obtain ⟨t, ht, others, same, hlast, hothers, hsame⟩ := exists_reordered_last he
    obtain ⟨u, hu, others', same', hlast', hothers', hsame'⟩ := exists_reordered_last hf
    have hheard : item ∈ inboxProjection clock.calendar u := by
      rw [h u hu, ← h t ht]
      exact mem_inboxProjection.mpr ⟨_, mem_itemsByKey_last hlast hothers hsame hitem⟩
    have hno := not_mem_inbox_last (hdated.perm hu.events) hlast' hothers' hsame' (hu.events.mem_iff.mpr he) hne hitem
    exact ⟨fun hentity => hno (.inl hentity) hheard,
      fun item' hitem' hkey => hno (.inr ⟨item', hitem', hkey⟩) hheard⟩
  · intro h s' hr
    have hitems : inboxProjection clock.calendar s' = ((itemsByKey s').map Prod.snd).insertionSort
      fun a b => inboxOrder clock.calendar a ≤ inboxOrder clock.calendar b := rfl
    rw [hitems, itemsByKey_congr hdated h hr]
    rfl

end

end Winsmux.Ledger
