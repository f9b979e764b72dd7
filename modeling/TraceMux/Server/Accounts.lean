/-
# Accounts of the subscriptions

Of the frames published since a subscription began, each was handed to the connection, is still
waiting, was counted as dropped or was reported to the client, exactly as long as no frame is
published while a subscriber has as many unread frames as the channel holds.
-/

import TraceMux.Server.Forwarding

namespace TraceMux.Server.Delivery

open Base Base.Broadcast Base.Transition TraceMux.Core Function

variable {setup : Setup} {s s' : Hub} {a : Action} {t : SubTask} {id : SubTaskId}

/-- What holds of a task when no frame has been lost to it, given the channel of its session
and the number of frames published there. -/
structure TaskOk (c : Channel Bytes) (published : ℕ) (t : SubTask) : Prop where
  receiver_lt : t.receiver < c.nextReceiver
  reported_eq : t.reported = 0
  /-- The channel still has every frame the task has not received. -/
  unread : ∃ pos, c.cursor t.receiver = some pos ∧ pos ≤ c.sent.length ∧
    c.sent.length ≤ pos + c.capacity ∧
    published = t.since + t.handed + t.phase.inFlight + (c.sent.length - pos)

/-- What holds of the server when no frame has been lost. -/
structure Inv (s : Hub) : Prop where
  dropped_eq : ∀ sid, (s.ingest.statsOf sid).dropped = 0
  taskOk : ∀ id t, s.tasks id = some t → s.aborted id t = false →
    TaskOk (s.fanout t.fanout) (s.published t.fanout) t

theorem dropped_recordFrame (ingest : Ingest) (sid sid' : Uuid) (bytes : ℕ) :
    ((ingest.recordFrame sid bytes).statsOf sid').dropped = (ingest.statsOf sid').dropped := by
  by_cases hsid : sid' = sid
  · simp [Ingest.recordFrame, Ingest.statsOf, hsid]
  · simp [Ingest.recordFrame, Ingest.statsOf, hsid]

theorem Inv.accounted (h : Inv s) : Accounted s := by
  intro id t ht hlive
  obtain ⟨-, hreported, pos, hcursor, hpos, hcapacity, haccount⟩ := h.taskOk id t ht hlive
  have hqueued : (s.fanout t.fanout).queued pos = (s.fanout t.fanout).sent.length - pos :=
    Nat.min_eq_left (by omega)
  simp only [Hub.queuedFor, hcursor, hqueued, h.dropped_eq, hreported]
  omega

/-- Publishing to a task that has no room leaves a frame unaccounted for. -/
theorem not_accounted_of_full (h : Inv s) (ht : s.tasks id = some t)
    (hlive : s.aborted id t = false) (hfull : ¬ s.HasRoom t) (bytes : Bytes)
    (htasks : s'.tasks = s.tasks) (hconns : s'.conns = s.conns)
    (hchannel : s'.fanout t.fanout = ((s.fanout t.fanout).send bytes).2)
    (hpublished : s'.published t.fanout = s.published t.fanout + 1)
    (hdropped : (s'.ingest.statsOf t.sid).dropped = 0) : ¬ Accounted s' := by
  intro haccounted
  obtain ⟨hlt, hreported, pos, hcursor, hpos, hcapacity, haccount⟩ := h.taskOk id t ht hlive
  have hunread : ¬ (s.fanout t.fanout).sent.length < pos + (s.fanout t.fanout).capacity := by
    intro hfree
    apply hfull
    intro pos' hpos'
    rw [hcursor] at hpos'
    cases hpos'
    exact hfree
  have hequation := haccounted id t (by rw [htasks]; exact ht)
    (by rw [Hub.aborted, hconns]; exact hlive)
  rw [hpublished, hdropped, hreported, Hub.queuedFor, hchannel,
    Channel.send_of_receiver hlt hcursor] at hequation
  have hqueued : min ((s.fanout t.fanout).sent.length + 1 - pos) (s.fanout t.fanout).capacity =
      (s.fanout t.fanout).capacity := Nat.min_eq_right (by omega)
  simp only [hcursor, Channel.queued, List.length_append, List.length_singleton, hqueued]
    at hequation
  omega

theorem dropped_of_step (hstep : step setup s a = some s') (sid : Uuid) :
    (s'.ingest.statsOf sid).dropped = (s.ingest.statsOf sid).dropped := by
  cases outline_of_step hstep with
  | quiet hquiet => rw [Ingest.statsOf, hquiet.stats_eq, Ingest.statsOf]
  | registered other kind iface label =>
    unfold Ingest.registerSession
    split <;> rfl
  | removed | publishedMetrics => rfl
  | published hsession =>
    rw [dropped_recordFrame]
    rfl

theorem published_publish (s : Hub) (f g : FanoutId) (bytes : Bytes) :
    (s.publish f bytes).published g = s.published g + if g = f then 1 else 0 := by
  by_cases hg : g = f
  · rw [if_pos hg, hg]
    exact update_self ..
  · rw [if_neg hg]
    exact update_of_ne hg ..

variable {pos n : ℕ} {sid : Uuid}

/-- On a channel with a receiver, as many frames are published as are stored. -/
theorem Wired.published_step (hw : Wired s) (hstep : Delivery.step setup s a = some s')
    (ht : s.tasks id = some t) (hcursor : (s.fanout t.fanout).cursor t.receiver = some pos) :
    s'.published t.fanout + (s.fanout t.fanout).sent.length =
      s.published t.fanout + (s'.fanout t.fanout).sent.length := by
  have hpublish : ∀ f bytes, (s.publish f bytes).published t.fanout +
      (s.fanout t.fanout).sent.length =
        s.published t.fanout + ((s.publish f bytes).fanout t.fanout).sent.length := by
    intro f bytes
    rw [published_publish]
    by_cases hf : t.fanout = f
    · rw [if_pos hf, hw.fanout_publish bytes ht hcursor hf, List.length_append]
      exact Nat.add_right_comm ..
    · rw [if_neg hf, Nat.add_zero, show (s.publish f bytes).fanout t.fanout = s.fanout t.fanout from
        update_of_ne hf ..]
  cases outline_of_step hstep with
  | quiet hquiet => rw [hquiet.published_eq, hquiet.sent_eq]
  | registered sid kind iface label =>
    show _ = _ + ((s.ingest.registerSession sid kind iface label).2.fanouts _).sent.length
    rw [(registerSession_rows s.ingest sid kind iface label).1]
  | removed => rfl
  | published hsession | publishedMetrics hsession => exact hpublish _ _

theorem Inv.taskOk_step (hw : Wired s) (h : Inv s) (hguard : NotFull s a)
    (hstep : Delivery.step setup s a = some s') {t' : SubTask} (ht : s.tasks id = some t)
    (ht' : s'.tasks id = some t') (hlive' : s'.aborted id t' = false) :
    TaskOk (s'.fanout t'.fanout) (s'.published t'.fanout) t' := by
  have hlt := (hw.step hstep).receiver_lt id t' ht'
  have hmoved := hw.taskMoved hstep ht ht'
  have hlive := hw.aborted_of_step hstep ht hmoved.samePlace.conn_eq hlive'
  obtain ⟨-, hreported, pos, hcursor, hpos, hcapacity, haccount⟩ := h.taskOk id t ht hlive
  have hpublished := hw.published_step hstep ht hcursor
  cases hmoved with
  | kept hsame =>
    rw [hsame.sent_eq] at hpublished
    refine ⟨hlt, hreported, pos, hsame.cursor_eq.trans hcursor, ?_⟩
    rw [hsame.sent_eq, hsame.capacity_eq]
    omega
  | @published _ sid _ session ha hsession hf hchannel =>
    have hroom : s.RoomFor sid := by
      rcases ha with rfl | rfl
      · exact hguard
      · exact hguard
    have hfree := hroom session hsession id (hw.task_lt id t ht) t ht hlive hf pos hcursor
    rw [Channel.send_of_receiver (hw.receiver_lt id t ht) hcursor] at hchannel
    rw [hchannel, List.length_append] at hpublished
    refine ⟨hlt, hreported, pos, by rw [hchannel]; exact hcursor, ?_⟩
    rw [hchannel, List.length_append]
    simp only [List.length_singleton] at hpublished ⊢
    omega
  | received hphase hat hbytes hstands =>
    cases hat.symm.trans hcursor
    obtain ⟨hmore, -⟩ := List.getElem?_eq_some_iff.mp hbytes
    rw [hstands.sent_eq] at hpublished
    refine ⟨hlt, hreported, pos + 1, hstands.cursor_eq, ?_⟩
    show _ ∧ _ ∧ s'.published t.fanout = t.since + t.handed + 1 + _
    rw [hstands.sent_eq, hstands.capacity_eq]
    simp only [hphase, Phase.inFlight] at haccount
    omega
  | lagged hphase hat hbehind hstands =>
    cases hat.symm.trans hcursor
    -- A task that has every frame has no gap.
    exact absurd hbehind (Nat.not_lt.mpr hcapacity)
  | @handed bytes phase hphase hwriting hidle hsame =>
    have hfree : phase.inFlight = 0 := by rcases hidle with rfl | rfl <;> rfl
    rw [hsame] at hpublished
    refine ⟨hlt, hreported, pos, hsame ▸ hcursor, ?_⟩
    simp only [hsame, hfree]
    simp only [hphase, Phase.inFlight] at haccount
    omega
  | woken hphase hsame =>
    rw [hsame] at hpublished
    refine ⟨hlt, hreported, pos, hsame ▸ hcursor, ?_⟩
    simp only [hsame, Phase.inFlight]
    simp only [hphase, Phase.inFlight] at haccount
    omega

theorem Inv.step (hw : Wired s) (h : Inv s) (hguard : NotFull s a)
    (hstep : Delivery.step setup s a = some s') : Inv s' where
  dropped_eq sid := by rw [dropped_of_step hstep, h.dropped_eq]
  taskOk id t' ht' hlive := by
    cases ht : s.tasks id with
    | none =>
      obtain ⟨cid, conn, env, text, sid, session, -, -, -, -, -, rfl, -, -, rfl⟩ :=
        exists_pushTask hstep ht ht'
      -- A new task stands at the end of its channel.
      show TaskOk (Hub.fanout (s.pushTask ..) session.fanout) (s.published session.fanout) _
      rw [fanout_pushTask]
      refine ⟨Nat.lt_succ_self _, rfl, (s.fanout session.fanout).sent.length, update_self ..,
        le_rfl, Nat.le_add_right _ _, ?_⟩
      simp [Channel.subscribe, Phase.inFlight]
    | some t => exact h.taskOk_step hw hguard hstep ht ht' hlive

theorem Inv.not_accounted_step (setup : Setup) (h : Inv s) (hguard : ¬ NotFull s a) :
    ∃ s', Delivery.step setup s a = some s' ∧ ¬ Accounted s' := by
  cases a with
  | publishWire sid bytes =>
    simp only [NotFull, Hub.RoomFor, not_forall] at hguard
    obtain ⟨session, hsession, id, -, t, ht, hlive, hf, hfull⟩ := hguard
    refine ⟨s.publishWire sid bytes, rfl, ?_⟩
    rw [publishWire_eq bytes hsession, ← hf]
    refine not_accounted_of_full h ht hlive hfull bytes rfl rfl (update_self ..)
      (update_self ..) ?_
    rw [dropped_recordFrame]
    exact h.dropped_eq t.sid
  | publishMetrics sid bytes =>
    simp only [NotFull, Hub.RoomFor, not_forall] at hguard
    obtain ⟨session, hsession, id, -, t, ht, hlive, hf, hfull⟩ := hguard
    refine ⟨s.publishMetrics sid bytes, rfl, ?_⟩
    rw [Hub.publishMetrics, hsession]
    simp only [← hf]
    exact not_accounted_of_full h ht hlive hfull bytes rfl rfl (update_self ..)
      (update_self ..) (h.dropped_eq t.sid)
  | _ => exact absurd trivial hguard

theorem inv_new : Inv .new where
  dropped_eq _ := rfl
  taskOk _ _ h := by cases h

/-- In every state of a run the frames published to every subscription are accounted for,
exactly when every frame is published while each subscriber of its session has fewer unread
frames than the channel holds. -/
theorem accounted_iff_notFull (setup : Setup) (run : List Action) :
    (∀ before s, before <+: run → exec (step setup) .new before = some s → Accounted s) ↔
      Guarded (step setup) NotFull .new run := by
  have haccounted : ∀ s, Wired s ∧ Inv s → Accounted s := fun _ h => h.2.accounted
  exact forall_prefix_iff_guarded haccounted
    (fun _ _ _ h hg hs => ⟨h.1.step hs, h.2.step h.1 hg hs⟩)
    (fun _ _ h hg => h.2.not_accounted_step setup hg) ⟨wired_new, inv_new⟩ run

/-- `n` frames of its session have been published since a task began, and it has received
none. -/
structure Behind (s : Hub) (sid : Uuid) (id : SubTaskId) (t : SubTask) (pos n : ℕ) : Prop where
  registered : ∃ session, s.ingest.registry sid = some session ∧ t.fanout = session.fanout
  task : s.tasks id = some t
  live : s.aborted id t = false
  receiver_lt : t.receiver < (s.fanout t.fanout).nextReceiver
  cursor_eq : (s.fanout t.fanout).cursor t.receiver = some pos
  sent_eq : (s.fanout t.fanout).sent.length = pos + n
  published_eq : s.published t.fanout = t.since + n
  dropped_eq : (s.ingest.statsOf t.sid).dropped = 0
  idle : t.phase = .receiving ∧ t.handed = 0 ∧ t.reported = 0

theorem Behind.publishWire (h : Behind s sid id t pos n) (bytes : Bytes) :
    Behind (s.publishWire sid bytes) sid id t pos (n + 1) ∧
      ((s.publishWire sid bytes).fanout t.fanout).capacity = (s.fanout t.fanout).capacity := by
  obtain ⟨session, hsession, hf⟩ := h.registered
  have hchannel : (s.publish t.fanout bytes).fanout t.fanout =
      { s.fanout t.fanout with sent := (s.fanout t.fanout).sent ++ [bytes] } := by
    rw [← Channel.send_of_receiver h.receiver_lt h.cursor_eq]
    exact update_self ..
  have hpublished : (s.publish t.fanout bytes).published t.fanout = s.published t.fanout + 1 :=
    update_self ..
  rw [publishWire_eq bytes hsession, ← hf]
  refine ⟨⟨⟨session, hsession, hf⟩, h.task, h.live, ?_, ?_, ?_, ?_, ?_, h.idle⟩, ?_⟩
  · show t.receiver < ((s.publish t.fanout bytes).fanout t.fanout).nextReceiver
    rw [hchannel]
    exact h.receiver_lt
  · show ((s.publish t.fanout bytes).fanout t.fanout).cursor t.receiver = some pos
    rw [hchannel]
    exact h.cursor_eq
  · show ((s.publish t.fanout bytes).fanout t.fanout).sent.length = pos + (n + 1)
    rw [hchannel, List.length_append, h.sent_eq]
    rfl
  · show (s.publish t.fanout bytes).published t.fanout = t.since + (n + 1)
    rw [hpublished, h.published_eq]
    rfl
  · show (((s.publish t.fanout bytes).ingest.recordFrame sid bytes.length).statsOf
      t.sid).dropped = 0
    rw [dropped_recordFrame]
    exact h.dropped_eq
  · show ((s.publish t.fanout bytes).fanout t.fanout).capacity = (s.fanout t.fanout).capacity
    rw [hchannel]

/-- Publishing goes on without the task. -/
theorem Behind.exec_publishWire (h : Behind s sid id t pos n) (setup : Setup) (bytes : Bytes)
    (more : ℕ) :
    ∃ s', exec (step setup) s (List.replicate more (.publishWire sid bytes)) = some s' ∧
      Behind s' sid id t pos (n + more) ∧
      (s'.fanout t.fanout).capacity = (s.fanout t.fanout).capacity := by
  induction more generalizing s n with
  | zero => exact ⟨s, rfl, h, rfl⟩
  | succ more ih =>
    obtain ⟨hnext, hcapacity⟩ := h.publishWire bytes
    obtain ⟨s', hrun, hbehind, hsame⟩ := ih hnext
    refine ⟨s', hrun, ?_, hsame.trans hcapacity⟩
    rwa [Nat.add_right_comm n 1 more] at hbehind

/-- Of the frames it has not received, those the channel holds are accounted for. -/
theorem Behind.account (h : Behind s sid id t pos n) :
    s.published t.fanout - t.since = n ∧
      t.handed + s.queuedFor t + (s.ingest.statsOf t.sid).dropped + t.reported =
        min n (s.fanout t.fanout).capacity := by
  obtain ⟨hphase, hhanded, hreported⟩ := h.idle
  constructor
  · rw [h.published_eq, Nat.add_sub_cancel_left]
  · simp [Hub.queuedFor, h.cursor_eq, Channel.queued, h.sent_eq, h.dropped_eq, hphase, hhanded,
      hreported, Phase.inFlight]

def oneName : Setup := ⟨fun name => if name = "s" then some 0 else none, 0⟩

def subscribeRun : List Action :=
  [.registerSession 0 "mock" "a" none, .connect, .subscribe 0 ⟨some "s", none⟩]

/-- A client that subscribes and is not served while 1025 frames are published: one of them is
neither handed over nor queued nor counted nor reported. -/
theorem lagging_frame_unaccounted :
    ∃ s t, exec (step oneName) .new
        (subscribeRun ++ List.replicate 1025 (.publishWire 0 [0])) = some s ∧
      s.tasks 0 = some t ∧ s.published t.fanout - t.since = 1025 ∧
      t.handed + s.queuedFor t + (s.ingest.statsOf t.sid).dropped + t.reported = 1024 ∧
      ¬ Accounted s := by
  obtain ⟨s, t, hsub, hbehind, hcapacity⟩ : ∃ s t, exec (step oneName) .new subscribeRun = some s ∧
      Behind s 0 0 t 0 0 ∧ (s.fanout t.fanout).capacity = 1024 :=
    ⟨_, ⟨0, ⟨"s", none⟩, 0, 0, 0, .receiving, 0, 0, 0⟩, rfl, ⟨⟨_, rfl, rfl⟩, rfl, rfl, by decide,
      rfl, rfl, rfl, rfl, rfl, rfl, rfl⟩, rfl⟩
  obtain ⟨s', hrun, hlate, hsame⟩ := hbehind.exec_publishWire oneName [0] 1025
  obtain ⟨hpublished, haccount⟩ := hlate.account
  rw [hsame, hcapacity] at haccount
  refine ⟨s', t, exec_append_of hsub hrun, hlate.task, hpublished, haccount, fun haccounted => ?_⟩
  have hequal := haccounted 0 t hlate.task hlate.live
  rw [hpublished, haccount] at hequal
  exact absurd hequal (by decide)

end TraceMux.Server.Delivery
