/-
# Subscriptions of the web client

Panels listen to channels of sessions. The client keeps their callbacks under texts made of the
session and the number of the channel, subscribes with the first callback of a text and takes
the subscription back with the last. On a new connection it reads the session and the channel
from the texts and subscribes to all of them again.
-/

import Mathlib.Data.List.Dedup
import TraceMux.Base.Text
import TraceMux.Base.Transition

namespace TraceMux.Web.ChannelListeners

open Base Base.Transition List

structure Channel where
  sid : Text
  ch : ℤ
  sid_ne : sid ≠ []
  deriving DecidableEq

def keyOf (channel : Channel) : Text := channel.sid ++ '/' :: Text.ofInt channel.ch

/-- The number with a text. The engine writes large ones with an exponent, and reads them. -/
def number : Text → ℤ
  | '-' :: digits => -(Nat.ofDigitChars 10 digits 0 : ℤ)
  | digits => Nat.ofDigitChars 10 digits 0

/-- The text behind the last slash is the channel, the one before it the session. -/
def channelOf (key : Text) : Option Channel :=
  if h : (key.rdropWhile (· ≠ '/')).dropLast ≠ [] then
    some ⟨_, number (key.rtakeWhile (· ≠ '/')), h⟩
  else none

theorem number_ofInt (n : ℤ) : number (Text.ofInt n) = n := by
  cases n with
  | ofNat n =>
    have hne : ∀ digits, Text.ofNat n ≠ '-' :: digits := by
      intro digits h
      have hmem : '-' ∈ Text.ofNat n := h ▸ mem_cons_self
      exact absurd (Text.isDigit_of_mem_ofNat hmem) (by decide)
    rw [Text.ofInt, number.eq_2 _ hne, Text.ofNat, Nat.ofDigitChars_ten_toDigits]
    rfl
  | negSucc n =>
    rw [Text.ofInt, number, Text.ofNat, Nat.ofDigitChars_ten_toDigits]
    rfl

theorem ne_slash_of_mem_ofInt {n : ℤ} {c : Char} (h : c ∈ Text.ofInt n) : c ≠ '/' := by
  rintro rfl
  cases n with
  | ofNat n => exact absurd (Text.isDigit_of_mem_ofNat h) (by decide)
  | negSucc n =>
    rcases mem_cons.mp h with h | h
    · exact absurd h (by decide)
    · exact absurd (Text.isDigit_of_mem_ofNat h) (by decide)

theorem channelOf_keyOf (channel : Channel) : channelOf (keyOf channel) = some channel := by
  have hdigits : ∀ c ∈ (Text.ofInt channel.ch).reverse, decide (c ≠ '/') = true := fun c hc =>
    decide_eq_true (ne_slash_of_mem_ofInt (mem_reverse.mp hc))
  have hkey : (keyOf channel).reverse =
      (Text.ofInt channel.ch).reverse ++ '/' :: channel.sid.reverse := by
    simp [keyOf]
  have hbefore : ((keyOf channel).rdropWhile (· ≠ '/')).dropLast = channel.sid := by
    rw [rdropWhile, hkey, dropWhile_append_of_pos hdigits]
    simp
  have hbehind : (keyOf channel).rtakeWhile (· ≠ '/') = Text.ofInt channel.ch := by
    rw [rtakeWhile, hkey, takeWhile_append_of_pos hdigits]
    simp
  simp only [channelOf, hbefore, hbehind, number_ofInt, dif_pos channel.sid_ne]

theorem keyOf_injective : Function.Injective keyOf := by
  intro a b h
  have hread := channelOf_keyOf a
  rw [h, channelOf_keyOf b] at hread
  exact (Option.some.inj hread).symm

structure Client where
  /-- The callbacks that are kept, by number, with their keys. A key without callbacks is dropped
  with the last of them. -/
  listeners : List (Text × ℕ) := []
  /-- The calls of `useChannel`; the number of a call is that of its callback. -/
  calls : List Channel := []
  isOpen : Bool := false
  /-- What was sent on the current socket: a channel, and whether to subscribe to it. -/
  sent : List (Channel × Bool) := []

inductive Action
  | useChannel (channel : Channel)
  /-- A call of the function that a call of `useChannel` has returned. -/
  | unsubscribe (callback : ℕ)
  | opened
  | closed

namespace Client

variable (s : Client)

def keys : List Text := s.listeners.map Prod.fst

/-- What was sent, once a request is sent if the socket is open. -/
def send (channel : Channel) (on : Bool) : List (Channel × Bool) :=
  if s.isOpen then s.sent ++ [(channel, on)] else s.sent

def useChannel (channel : Channel) : Client :=
  { s with
    listeners := s.listeners ++ [(keyOf channel, s.calls.length)]
    calls := s.calls ++ [channel]
    sent := if keyOf channel ∈ s.keys then s.sent else s.send channel true }

def unsubscribe (channel : Channel) (callback : ℕ) : Client :=
  if keyOf channel ∈ s.keys then
    let s' := { s with listeners := s.listeners.erase (keyOf channel, callback) }
    if keyOf channel ∈ s'.keys then s' else { s' with sent := s.send channel false }
  else s

def resubscribeChannels : List (Channel × Bool) :=
  s.keys.dedup.filterMap fun key => (channelOf key).map fun channel => (channel, true)

def step : Action → Option Client
  | .useChannel channel => some (s.useChannel channel)
  | .unsubscribe callback => s.calls[callback]?.map fun channel => s.unsubscribe channel callback
  | .opened =>
    if s.isOpen then none else some { s with isOpen := true, sent := s.resubscribeChannels }
  | .closed => some { s with isOpen := false }

def Subscribed (channel : Channel) : Prop :=
  s.sent.foldl (fun on request => if request.1 = channel then request.2 else on) false = true

/-- A callback for the channel is kept. -/
def HasListener (channel : Channel) : Prop :=
  ∃ e ∈ s.listeners, s.calls[e.2]? = some channel

end Client

/-- Callbacks stand under the keys of their channels, and what has a key is subscribed to. -/
structure Inv (s : Client) : Prop where
  entry : ∀ e ∈ s.listeners, ∃ channel, s.calls[e.2]? = some channel ∧ keyOf channel = e.1
  sent : s.isOpen = true → ∀ channel, s.Subscribed channel ↔ keyOf channel ∈ s.keys

variable {s : Client}

theorem Inv.hasListener_iff (h : Inv s) (channel : Channel) :
    s.HasListener channel ↔ keyOf channel ∈ s.keys := by
  constructor
  · rintro ⟨e, he, hcall⟩
    obtain ⟨other, hother, hkey⟩ := h.entry e he
    rw [hcall, Option.some.injEq] at hother
    rw [hother, hkey]
    exact mem_map_of_mem he
  · intro hmem
    obtain ⟨e, he, hkey⟩ := mem_map.mp hmem
    obtain ⟨other, hcall, hother⟩ := h.entry e he
    rw [keyOf_injective (hother.trans hkey)] at hcall
    exact ⟨e, he, hcall⟩

theorem subscribed_send {s' : Client} {channel : Channel} {on : Bool} (hopen : s.isOpen = true)
    (hsent : s'.sent = s.send channel on) (other : Channel) :
    s'.Subscribed other ↔ if channel = other then on = true else s.Subscribed other := by
  rw [Client.Subscribed, hsent, Client.send, if_pos hopen, foldl_append]
  show (if channel = other then on else _) = true ↔ _
  split
  · exact Iff.rfl
  · exact Iff.rfl

theorem subscribed_of_all (h : ∀ request ∈ s.sent, request.2 = true) (channel : Channel) :
    s.Subscribed channel ↔ (channel, true) ∈ s.sent := by
  unfold Client.Subscribed
  generalize s.sent = sent at h
  induction sent using reverseRecOn with
  | nil => simp
  | append_singleton sent request ih =>
    have ih' := ih fun r hr => h r (mem_append_left _ hr)
    have hon : request.2 = true := h request (mem_append_right _ mem_cons_self)
    rw [foldl_append, mem_append, List.mem_singleton, ← ih', foldl_cons, foldl_nil]
    by_cases hc : request.1 = channel
    · rw [if_pos hc]
      exact iff_of_true hon (.inr (Prod.ext hc.symm hon.symm))
    · rw [if_neg hc, or_iff_left]
      rintro rfl
      exact hc rfl

theorem Inv.useChannel (h : Inv s) (channel : Channel) : Inv (s.useChannel channel) := by
  refine ⟨fun e he => ?_, fun hopen other => ?_⟩
  · rcases mem_append.mp he with he | he
    · obtain ⟨old, hcall, hkey⟩ := h.entry e he
      refine ⟨old, ?_, hkey⟩
      exact (List.getElem?_append_left (List.getElem?_eq_some_iff.mp hcall).1).trans hcall
    · rw [List.mem_singleton.mp he]
      exact ⟨channel, getElem?_concat_length, rfl⟩
  · have hkeys : (s.useChannel channel).keys = s.keys ++ [keyOf channel] := map_append
    rw [hkeys, mem_append, List.mem_singleton, keyOf_injective.eq_iff]
    by_cases hmem : keyOf channel ∈ s.keys
    · have hsame : (s.useChannel channel).Subscribed other ↔ s.Subscribed other := by
        rw [Client.Subscribed, Client.useChannel, if_pos hmem]
        rfl
      rw [hsame, h.sent hopen, or_iff_left_of_imp]
      rintro rfl
      exact hmem
    · rw [subscribed_send (s := s) hopen (if_neg hmem), h.sent hopen]
      by_cases hc : channel = other
      · rw [if_pos hc]
        exact iff_of_true rfl (.inr hc.symm)
      · rw [if_neg hc, or_iff_left fun he => hc he.symm]

theorem Inv.unsubscribe (h : Inv s) {callback : ℕ} {channel : Channel} :
    Inv (s.unsubscribe channel callback) := by
  have hentry : ∀ e ∈ s.listeners.erase (keyOf channel, callback), ∃ c,
      s.calls[e.2]? = some c ∧ keyOf c = e.1 := fun e he => h.entry e (mem_of_mem_erase he)
  have hother : ∀ other, other ≠ channel →
      (keyOf other ∈ (s.listeners.erase (keyOf channel, callback)).map Prod.fst ↔
        keyOf other ∈ s.keys) := by
    intro other hne
    simp only [Client.keys, mem_map]
    refine exists_congr fun e => and_congr_left fun hkey => mem_erase_of_ne ?_
    rintro rfl
    exact hne (keyOf_injective hkey.symm)
  unfold Client.unsubscribe
  split
  · next hmem =>
    dsimp only
    split
    · next hstill =>
      refine ⟨hentry, fun hopen other => (h.sent hopen other).trans ?_⟩
      by_cases hc : other = channel
      · rw [hc]
        exact iff_of_true hmem hstill
      · exact (hother other hc).symm
    · next hlast =>
      refine ⟨hentry, fun hopen other => ?_⟩
      rw [subscribed_send (s := s) hopen rfl, h.sent hopen]
      by_cases hc : channel = other
      · rw [if_pos hc, ← hc]
        exact iff_of_false Bool.false_ne_true hlast
      · rw [if_neg hc]
        exact (hother other fun he => hc he.symm).symm
  · exact h

theorem Inv.opened (h : Inv s) : Inv { s with isOpen := true, sent := s.resubscribeChannels } := by
  refine ⟨h.entry, fun _ channel => ?_⟩
  have hall : ∀ request ∈ s.resubscribeChannels, request.2 = true := by
    intro request hrequest
    obtain ⟨key, -, hkey⟩ := mem_filterMap.mp hrequest
    obtain ⟨c, -, rfl⟩ := Option.map_eq_some_iff.mp hkey
    rfl
  rw [subscribed_of_all hall]
  rw [Client.resubscribeChannels, mem_filterMap]
  constructor
  · rintro ⟨key, hkey, hread⟩
    obtain ⟨c, hc, heq⟩ := Option.map_eq_some_iff.mp hread
    obtain ⟨e, he, rfl⟩ := mem_map.mp (mem_dedup.mp hkey)
    obtain ⟨other, -, hother⟩ := h.entry e he
    rw [← hother, channelOf_keyOf, Option.some.injEq] at hc
    cases heq
    rw [← hc, hother]
    exact mem_map_of_mem he
  · intro hkey
    exact ⟨_, mem_dedup.mpr hkey, by rw [channelOf_keyOf]; rfl⟩

theorem Inv.step {a : Action} {s' : Client} (h : Inv s) (hstep : s.step a = some s') :
    Inv s' := by
  cases a with
  | useChannel channel =>
    cases hstep
    exact h.useChannel channel
  | unsubscribe callback =>
    obtain ⟨channel, -, rfl⟩ := Option.map_eq_some_iff.mp hstep
    exact h.unsubscribe
  | opened =>
    rw [Client.step] at hstep
    split at hstep
    · cases hstep
    · cases hstep
      exact h.opened
  | closed =>
    cases hstep
    exact ⟨h.entry, fun hopen => nomatch hopen⟩

/-- The channels of the calls of `useChannel`, in their order. -/
def usedChannels (run : List Action) : List Channel :=
  run.filterMap fun
    | .useChannel channel => some channel
    | _ => none

/-- The callbacks that are kept are those of the calls whose returned function was not called. -/
structure Kept (run : List Action) (s : Client) : Prop where
  calls : s.calls = usedChannels run
  nodup : s.listeners.Nodup
  called : ∀ callback, .unsubscribe callback ∈ run → callback < s.calls.length
  mem : ∀ channel callback, (keyOf channel, callback) ∈ s.listeners ↔
    s.calls[callback]? = some channel ∧ .unsubscribe callback ∉ run

theorem Client.calls_unsubscribe (s : Client) (channel : Channel) (callback : ℕ) :
    (s.unsubscribe channel callback).calls = s.calls := by
  unfold Client.unsubscribe
  split
  · dsimp only
    split
    · rfl
    · rfl
  · rfl

theorem Client.listeners_unsubscribe (s : Client) (channel : Channel) (callback : ℕ) :
    (s.unsubscribe channel callback).listeners =
      s.listeners.erase (keyOf channel, callback) := by
  unfold Client.unsubscribe
  split
  · dsimp only
    split
    · rfl
    · rfl
  · next hkey => exact (erase_of_not_mem fun h => hkey (mem_map_of_mem h)).symm

variable {run : List Action}

theorem Kept.useChannel (h : Kept run s) (channel : Channel) :
    Kept (run ++ [.useChannel channel]) (s.useChannel channel) := by
  have hfresh : ∀ c, (keyOf c, s.calls.length) ∉ s.listeners := fun c hc =>
    absurd ((h.mem c _).mp hc).1 (by simp)
  refine ⟨?_, ?_, fun callback hc => ?_, fun c callback => ?_⟩
  · simp [Client.useChannel, usedChannels, h.calls]
  · exact h.nodup.append (nodup_singleton _) (disjoint_singleton.mpr (hfresh channel))
  · have hlt := h.called callback (by simpa using hc)
    simp only [Client.useChannel, length_append, length_singleton]
    omega
  · have hrun : Action.unsubscribe callback ∈ run ++ [.useChannel channel] ↔
        .unsubscribe callback ∈ run := by simp
    simp only [Client.useChannel, mem_append, List.mem_singleton, Prod.mk.injEq,
      keyOf_injective.eq_iff, h.mem, hrun]
    rcases Nat.lt_trichotomy callback s.calls.length with hlt | rfl | hgt
    · rw [List.getElem?_append_left hlt, or_iff_left fun he => absurd he.2 hlt.ne]
    · -- a new call has a number of its own, whose function nobody can have called
      have hnot : Action.unsubscribe s.calls.length ∉ run := fun hc => (h.called _ hc).false
      simp [hnot, eq_comm]
    · have hnone : (s.calls ++ [channel])[callback]? = none := by
        rw [List.getElem?_eq_none_iff, length_append, length_singleton]
        omega
      simp [hnone, List.getElem?_eq_none hgt.le, hgt.ne']

theorem Kept.unsubscribe (h : Kept run s) {callback : ℕ} {channel : Channel}
    (hcall : s.calls[callback]? = some channel) :
    Kept (run ++ [.unsubscribe callback]) (s.unsubscribe channel callback) := by
  refine ⟨?_, ?_, fun other hother => ?_, fun c other => ?_⟩
  · simp [Client.calls_unsubscribe, usedChannels, h.calls]
  · rw [Client.listeners_unsubscribe]
    exact h.nodup.erase _
  · rw [Client.calls_unsubscribe]
    rcases mem_append.mp hother with hother | hother
    · exact h.called other hother
    · cases List.mem_singleton.mp hother
      exact (List.getElem?_eq_some_iff.mp hcall).1
  · rw [Client.listeners_unsubscribe, h.nodup.mem_erase_iff, h.mem, Client.calls_unsubscribe]
    simp only [ne_eq, Prod.mk.injEq, keyOf_injective.eq_iff, mem_append, List.mem_singleton,
      Action.unsubscribe.injEq, not_or]
    constructor
    · rintro ⟨hne, hused, hnot⟩
      refine ⟨hused, hnot, ?_⟩
      rintro rfl
      exact hne ⟨Option.some.inj (hused.symm.trans hcall), rfl⟩
    · rintro ⟨hused, hnot, hne⟩
      exact ⟨fun he => hne he.2, hused, hnot⟩

theorem Kept.other (h : Kept run s) {a : Action} {s' : Client}
    (hquiet : usedChannels [a] = [] ∧ ∀ callback, a ≠ .unsubscribe callback)
    (hcalls : s'.calls = s.calls) (hlisteners : s'.listeners = s.listeners) :
    Kept (run ++ [a]) s' := by
  have hrun : ∀ callback, Action.unsubscribe callback ∈ run ++ [a] ↔
      .unsubscribe callback ∈ run := by
    intro callback
    rw [mem_append, List.mem_singleton, or_iff_left fun he => hquiet.2 callback he.symm]
  refine ⟨?_, hlisteners ▸ h.nodup, fun callback hc => ?_, fun c callback => ?_⟩
  · rw [hcalls, h.calls, usedChannels, usedChannels, filterMap_append]
    exact (append_nil _).symm.trans (congrArg _ hquiet.1.symm)
  · rw [hcalls]
    exact h.called callback ((hrun callback).mp hc)
  · rw [hlisteners, hcalls, h.mem, hrun]

theorem Kept.step {a : Action} {s' : Client} (h : Kept run s) (hstep : s.step a = some s') :
    Kept (run ++ [a]) s' := by
  cases a with
  | useChannel channel =>
    cases hstep
    exact h.useChannel channel
  | unsubscribe callback =>
    obtain ⟨channel, hcall, rfl⟩ := Option.map_eq_some_iff.mp hstep
    exact h.unsubscribe hcall
  | opened =>
    rw [Client.step] at hstep
    split at hstep
    · cases hstep
    · cases hstep
      exact h.other ⟨rfl, fun _ => Action.noConfusion⟩ rfl rfl
  | closed =>
    cases hstep
    exact h.other ⟨rfl, fun _ => Action.noConfusion⟩ rfl rfl

theorem Kept.hasListener_iff (h : Kept run s) (hinv : Inv s) (channel : Channel) :
    s.HasListener channel ↔
      ∃ callback : ℕ, (usedChannels run)[callback]? = some channel ∧
        .unsubscribe callback ∉ run := by
  rw [← h.calls]
  constructor
  · rintro ⟨⟨key, callback⟩, he, hcall⟩
    obtain ⟨other, hother, rfl⟩ := hinv.entry _ he
    exact ⟨callback, hcall, ((h.mem other callback).mp he).2⟩
  · rintro ⟨callback, hcall, hnot⟩
    exact ⟨_, (h.mem channel callback).mpr ⟨hcall, hnot⟩, hcall⟩

/-- Whenever the connection is open, the channels that are subscribed to on its socket are those
with a listener: with a call of `useChannel` whose returned function was not called. -/
theorem subscribed_iff_hasListener (hrun : exec Client.step {} run = some s)
    (hopen : s.isOpen = true) (channel : Channel) :
    (s.Subscribed channel ↔ s.HasListener channel) ∧
      (s.HasListener channel ↔
        ∃ callback : ℕ, (usedChannels run)[callback]? = some channel ∧
          .unsubscribe callback ∉ run) := by
  have hnew : Inv {} := ⟨fun e he => absurd he not_mem_nil, fun h => nomatch h⟩
  have hinv := exec_keeps Inv.step hnew hrun
  have hkept : Kept ([] ++ run) s :=
    exec_history_invariant (fun _ _ _ _ h (_ : True) hs => Kept.step h hs)
      ⟨rfl, nodup_nil, fun _ h => absurd h not_mem_nil, by simp⟩
      (guarded_of_forall (fun _ _ => trivial) _ run) hrun
  rw [hinv.sent hopen, hinv.hasListener_iff]
  exact ⟨Iff.rfl, (hinv.hasListener_iff channel).symm.trans (hkept.hasListener_iff hinv channel)⟩

def reconnectedRun : List Action :=
  [.useChannel ⟨['a'], 0, by decide⟩, .opened, .useChannel ⟨['a'], 0, by decide⟩,
    .unsubscribe 0, .unsubscribe 0, .closed, .opened]

theorem subscribed_iff_hasListener_again :
    ∃ s, exec Client.step {} reconnectedRun = some s ∧ s.isOpen = true ∧
      ∀ channel, (s.Subscribed channel ↔ s.HasListener channel) ∧
        (s.HasListener channel ↔ ∃ callback : ℕ,
          (usedChannels reconnectedRun)[callback]? = some channel ∧
            .unsubscribe callback ∉ reconnectedRun) := by
  obtain ⟨s, hrun, hopen⟩ : ∃ s, exec Client.step {} reconnectedRun = some s ∧
      s.isOpen = true := ⟨_, rfl, rfl⟩
  exact ⟨s, hrun, hopen, subscribed_iff_hasListener hrun hopen⟩

end TraceMux.Web.ChannelListeners
