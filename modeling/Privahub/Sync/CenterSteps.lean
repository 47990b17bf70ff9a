import Privahub.Sync.Center

/-!
# Steps of the center and its edges

What each step can do, guards included: one inversion lemma for each action (`flush_cases`,
`send_cases`, …), from which everything about runs is derived.
-/

namespace Sync

namespace Center

theorem apply_keeps {P : Stored → Prop} {c : Change} {rows : List Stored} (hr : ∀ s ∈ rows, P s)
    (hw : c.msg.action ≠ .remove → P ⟨c.msg.row, c.isDeleted, c.msg.ver⟩) (hd : ∀ s, P s → P ⟨s.row, true, c.msg.ver⟩) :
    ∀ s ∈ c.apply rows, P s := by
  intro s hs
  unfold Change.apply at hs
  split_ifs at hs with hrm hh
  · exact hr s (List.mem_filter.1 hs).1
  · obtain ⟨t, ht, rfl⟩ := List.mem_map.1 hs
    split_ifs
    · exact hd t (hr t ht)
    · exact hr t ht
  · rcases List.mem_append.1 hs with hs | hs
    · exact hr s (List.mem_filter.1 hs).1
    · exact List.mem_singleton.1 hs ▸ hw hrm

theorem foldl_apply_keeps {P : Stored → Prop} {cs : List Change} {rows : List Stored} (hr : ∀ s ∈ rows, P s)
    (hw : ∀ c ∈ cs, c.msg.action ≠ .remove → P ⟨c.msg.row, c.isDeleted, c.msg.ver⟩)
    (hd : ∀ c ∈ cs, ∀ s, P s → P ⟨s.row, true, c.msg.ver⟩) : ∀ s ∈ cs.foldl (fun rows c => c.apply rows) rows, P s := by
  induction cs generalizing rows with
  | nil => exact hr
  | cons c cs ih =>
    exact ih (apply_keeps hr (hw c (List.mem_cons_self ..)) (hd c (List.mem_cons_self ..)))
      (fun d hd' => hw d (List.mem_cons_of_mem _ hd')) fun d hd' => hd d (List.mem_cons_of_mem _ hd')

namespace World

variable {w w' : World} {n : Bytes} {sid i : Nat} {m : Message}

theorem change_cases {tx : Nat} {action : SyncAction} {row : Entity} {isDeleted hard : Bool}
    (h : w.step (.change tx action row isDeleted hard) = some w') :
    (∀ c ∈ w.uncommitted, c.tx ≠ tx → ¬ c.msg.row.SameKey row) ∧ (action ≠ .remove → row.gmtModified ≠ 0) ∧
    w' = { w with
      uncommitted := w.uncommitted ++ [⟨tx, ⟨action, row, w.next⟩, isDeleted, hard⟩]
      queue := w.push ⟨action, row, w.next⟩
      next := w.next + 1
      written := if action = .remove then w.written else w.written ++ [⟨action, row, w.next⟩] } := by
  simp only [step] at h
  split at h
  case isTrue => simp at h
  case isFalse hc =>
    simp only [not_or, not_exists, not_and] at hc
    exact ⟨hc.1, hc.2, (Option.some.inj h).symm⟩

theorem flush_cases (h : w.step .flush = some w') :
    w.flush = none ∧ w' = { w with queue := [], flush := some ⟨w.queue, none, []⟩ } := by
  simp only [step] at h
  split at h
  · simp at h
  · exact ⟨‹_›, (Option.some.inj h).symm⟩

theorem deliver_cases {order : List Bytes} (h : w.step (.deliver order) = some w') :
    ∃ ev batch retry, w.flush = some ⟨ev :: batch, none, retry⟩ ∧ order.Perm w.NodeIDs ∧
      w' = { w with flush := some ⟨batch, some ⟨ev, w.targets ev order, none⟩, retry⟩ } := by
  simp only [step] at h
  split at h
  case h_1 ev batch retry hf =>
    split at h
    · exact ⟨ev, batch, retry, hf, ‹_›, (Option.some.inj h).symm⟩
    · simp at h
  case h_2 => simp at h

theorem target_cases {lost : Bool} (h : w.step (.target lost) = some w') :
    ∃ batch ev x ts retry, w.flush = some ⟨batch, some ⟨ev, x :: ts, none⟩, retry⟩ ∧
      ((∃ more, (more = [] ∨ more = w.retried ev x) ∧
          (w.current x = none ∨ ∃ sid, w.current x = some sid ∧ more = [] ∧ (RouteOf ev.msg.row).broadcast = false ∧
            ¬ ∃ s ∈ w.sessions[sid]?, s.Subscribed ev.msg.row.table) ∧
          w' = { w with flush := some ⟨batch, some ⟨ev, ts, none⟩, retry ++ more⟩ }) ∨
        ∃ sid, w.current x = some sid ∧ w' = { w with flush := some ⟨batch, some ⟨ev, x :: ts, some sid⟩, retry⟩ }) := by
  simp only [step] at h
  split at h
  case h_2 => simp at h
  case h_1 batch ev x ts retry hf =>
    refine ⟨batch, ev, x, ts, retry, hf, ?_⟩
    split at h
    case h_1 hc =>
      refine .inl ⟨if (RouteOf ev.msg.row).broadcast ∨ lost then w.retried ev x else [], ?_, .inl hc, ?_⟩
      · split_ifs
        · exact .inr rfl
        · exact .inl rfl
      · rw [← Option.some.inj h]
        split_ifs <;> simp
    case h_2 sid hc =>
      split at h
      case isTrue hs => exact .inr ⟨sid, hc, (Option.some.inj h).symm⟩
      case isFalse hs =>
        rw [not_or] at hs
        refine .inl ⟨[], .inl rfl, .inr ⟨sid, hc, rfl, by simpa using hs.1, hs.2⟩, ?_⟩
        rw [← Option.some.inj h, List.append_nil]

theorem send_cases {ok : Bool} (h : w.step (.send ok) = some w') :
    ∃ batch ev x ts sid retry, w.flush = some ⟨batch, some ⟨ev, x :: ts, some sid⟩, retry⟩ ∧
      ((ok = true ∧ w.writable sid ∧
          w' = { w with sessions := w.write sid ev.msg, flush := some ⟨batch, some ⟨ev, ts, none⟩, retry⟩ }) ∨
        (ok = false ∧
          w' = { w.closeSession sid with flush := some ⟨batch, some ⟨ev, ts, none⟩, retry ++ w.retried ev x⟩ })) := by
  simp only [step] at h
  split at h
  case h_2 => simp at h
  case h_1 batch ev x ts sid retry hf =>
    refine ⟨batch, ev, x, ts, sid, retry, hf, ?_⟩
    split at h
    case isTrue hok =>
      split at h
      case isTrue hw => exact .inl ⟨hok, hw, (Option.some.inj h).symm⟩
      case isFalse => simp at h
    case isFalse hok => exact .inr ⟨by simpa using hok, (Option.some.inj h).symm⟩

theorem delivered_cases (h : w.step .delivered = some w') :
    ∃ batch ev retry, w.flush = some ⟨batch, some ⟨ev, [], none⟩, retry⟩ ∧
      w' = { w with flush := some ⟨batch, none, retry⟩ } := by
  simp only [step] at h
  split at h
  · exact ⟨_, _, _, ‹_›, (Option.some.inj h).symm⟩
  · simp at h

theorem flushed_cases (h : w.step .flushed = some w') :
    ∃ retry, w.flush = some ⟨[], none, retry⟩ ∧ w' = { w with queue := retry ++ w.queue, flush := none } := by
  simp only [step] at h
  split at h
  · exact ⟨_, ‹_›, (Option.some.inj h).symm⟩
  · simp at h

theorem connect_cases (h : w.step (.connect n) = some w') :
    (w.edges n).conn = none ∧ w' = { w.openSession n ((w.edges n).Checkpoints.filter fun s => decide (s.table ∈ w.tables)) with
      edges := w.setEdge n { w.edges n with conn := some w.sessions.length } } := by
  simp only [step] at h
  split at h
  case isTrue hn => exact ⟨hn.2, (Option.some.inj h).symm⟩
  case isFalse => simp at h

theorem openOther_cases {subs : List Subscription} (h : w.step (.openOther n subs) = some w') :
    w' = w.openSession n subs := by
  simp only [step] at h
  split at h
  · exact (Option.some.inj h).symm
  · simp at h

theorem apply_cases {now : Int} (h : w.step (.apply n now) = some w') :
    ∃ sid m ms, (w.edges n).conn = some sid ∧ w.stream n = m :: ms ∧
      w' = { w with
        sessions := w.sessions.modify sid fun s => { s with stream := ms }
        edges := w.setEdge n { w.edges n with
          rows := Apply w.unicode (w.edges n).tables now (w.edges n).rows m
          applied := (w.edges n).applied ++ [m] } } := by
  simp only [step] at h
  split at h
  · simp at h
  · split at h
    · simp at h
    · exact ⟨_, _, _, ‹_›, ‹_›, (Option.some.inj h).symm⟩

theorem readTable_cases {ok : Bool} {order : List Stored} (h : w.step (.readTable i ok order) = some w') :
    ∃ sid x sub subs failed, w.syncs[i]? = some ⟨sid, x, sub :: subs, [], none, failed⟩ ∧ order.Perm (w.rowsSince sub) ∧
      w' = { w with syncs := w.syncs.set i ⟨sid, x, subs, if sub.table ∈ w.tables ∧ ok then order else [], none, failed⟩ } := by
  simp only [step] at h
  split at h
  case h_2 => simp at h
  case h_1 hs =>
    split at h
    case isTrue hp => exact ⟨_, _, _, _, _, hs, hp, (Option.some.inj h).symm⟩
    case isFalse => simp at h

theorem nextRow_cases (h : w.step (.nextRow i) = some w') :
    ∃ sid x subs s rows failed, w.syncs[i]? = some ⟨sid, x, subs, s :: rows, none, failed⟩ ∧
      ((¬ Visible w.rows s.row x ∧ w' = { w with syncs := w.syncs.set i ⟨sid, x, subs, rows, none, failed⟩ }) ∨
        (w.current x = none ∧ w' = { w with syncs := w.syncs.modify i Catchup.aborted }) ∨
        ∃ cur, Visible w.rows s.row x ∧ w.current x = some cur ∧
          w' = { w with syncs := w.syncs.set i ⟨sid, x, subs, rows, some (s.snapshot, cur), failed⟩ }) := by
  simp only [step] at h
  split at h
  case h_2 => simp at h
  case h_1 hs =>
    refine ⟨_, _, _, _, _, _, hs, ?_⟩
    split at h
    case isFalse hv => exact .inl ⟨hv, (Option.some.inj h).symm⟩
    case isTrue hv =>
      split at h
      case h_1 hc => exact .inr (.inl ⟨hc, (Option.some.inj h).symm⟩)
      case h_2 cur hc => exact .inr (.inr ⟨cur, hv, hc, (Option.some.inj h).symm⟩)

theorem sendRow_cases {ok : Bool} (h : w.step (.sendRow i ok) = some w') :
    ∃ sid x subs rows m cur failed, w.syncs[i]? = some ⟨sid, x, subs, rows, some (m, cur), failed⟩ ∧
      ((ok = true ∧ w.writable cur ∧
          w' = { w with sessions := w.write cur m, syncs := w.syncs.set i ⟨sid, x, subs, rows, none, failed⟩ }) ∨
        (ok = false ∧ w' = { w.closeSession cur with syncs := w.syncs.modify i Catchup.aborted })) := by
  simp only [step] at h
  split at h
  case h_2 => simp at h
  case h_1 hs =>
    refine ⟨_, _, _, _, _, _, _, hs, ?_⟩
    split at h
    case isTrue hok =>
      split at h
      case isTrue hw => exact .inl ⟨hok, hw, (Option.some.inj h).symm⟩
      case isFalse => simp at h
    case isFalse hok => exact .inr ⟨by simpa using hok, (Option.some.inj h).symm⟩

end World

end Center

end Sync
