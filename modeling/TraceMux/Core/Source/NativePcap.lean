/-
# Counters of the native packet capture

The backend counts the packets it emits. A query of the counters raises this count to the one
of the kernel and stores it again, and the next packet is counted on top of that. A query takes
a copy of the counters, asks the kernel and writes the copy back, so queries can overlap; a
packet is received between queries only.

Beside the backend we keep how many packets it has emitted, the highest count of the kernel any
query has seen, and the count the last action has reported.
-/

import TraceMux.Base.Transition
import Mathlib.Tactic.Linarith

namespace TraceMux.Core.Source.NativePcap

open Base.Transition

/-- The counters the native backend sets. -/
structure PcapStats where
  packetsTotal : ℕ := 0
  bytesTotal : ℕ := 0
  droppedKernelTotal : ℕ := 0
  lastPacketTsOriginNs : Option ℤ := none
  deriving DecidableEq, Repr

def saturatingAdd (a b : ℕ) : ℕ := min (a + b) (2 ^ 64 - 1)

structure KernelStats where
  received : ℕ
  dropped : ℕ
  ifDropped : ℕ
  deriving DecidableEq, Repr

structure Backend where
  isOpen : Bool := false
  seq : ℕ := 0
  stats : PcapStats := {}
  /-- The copies of the queries that wait for the kernel. -/
  queries : List PcapStats := []
  emitted : ℕ := 0
  /-- The highest count of received packets the kernel has given. -/
  highest : ℕ := 0
  /-- The count of packets the last action has reported. -/
  reported : Option ℕ := none
  deriving DecidableEq, Repr

inductive Action
  | open
  | recvPacket (tsOriginNs : ℤ) (capturedLen : ℕ)
  | stats
  | answer (query : ℕ) (stat : Option KernelStats)
  | close
  deriving DecidableEq, Repr

/-- One step. The calls that change the backend itself need it alone. -/
def step (b : Backend) : Action → Option Backend
  | .open => if b.queries = [] then some { isOpen := true } else none
  | .recvPacket tsOriginNs capturedLen =>
    if b.isOpen ∧ b.queries = [] then
      some { b with
        seq := saturatingAdd b.seq 1
        stats := { b.stats with
          packetsTotal := saturatingAdd b.stats.packetsTotal 1
          bytesTotal := saturatingAdd b.stats.bytesTotal capturedLen
          lastPacketTsOriginNs := some tsOriginNs }
        emitted := b.emitted + 1
        reported := none }
    else none
  | .stats =>
    if b.isOpen then some { b with queries := b.queries ++ [b.stats], reported := none }
    else some { b with reported := some b.stats.packetsTotal }
  | .answer query stat =>
    match b.queries[query]?, stat with
    | none, _ => none
    | some _, none => some { b with queries := b.queries.eraseIdx query, reported := none }
    | some snapshot, some stat =>
      let snapshot := { snapshot with
        packetsTotal := max snapshot.packetsTotal stat.received
        droppedKernelTotal := stat.dropped + stat.ifDropped }
      some { b with
        stats := snapshot
        queries := b.queries.eraseIdx query
        highest := max b.highest stat.received
        reported := some snapshot.packetsTotal }
  | .close => if b.queries = [] then some { b with isOpen := false, reported := none } else none

/-- The bound: what was emitted, or the highest count of the kernel. -/
def Backend.bound (b : Backend) : ℕ := max b.emitted b.highest

/-- A packet comes in only while no query has seen more packets than were emitted. -/
def NotAhead (b : Backend) : Action → Prop
  | .recvPacket _ _ => b.highest ≤ b.emitted
  | _ => True

instance (b : Backend) (a : Action) : Decidable (NotAhead b a) := by
  cases a <;> dsimp only [NotAhead] <;> infer_instance

structure Bounded (b : Backend) : Prop where
  stats_le : b.stats.packetsTotal ≤ b.bound
  queries_le : ∀ snapshot ∈ b.queries, snapshot.packetsTotal ≤ b.bound
  reported_le : ∀ count ∈ b.reported, count ≤ b.bound

theorem Bounded.step {b b' : Backend} {a : Action} (h : Bounded b) (hguard : NotAhead b a)
    (hstep : step b a = some b') : Bounded b' := by
  obtain ⟨hstats, hqueries, -⟩ := h
  have hbound : b.bound = max b.emitted b.highest := rfl
  revert hstep
  fun_cases NativePcap.step b a with
  | case1 =>
    rintro ⟨⟩
    exact ⟨Nat.zero_le _, nofun, nofun⟩
  | case3 tsOriginNs capturedLen hopen =>
    rintro ⟨⟩
    refine ⟨?_, by simp [hopen.2], nofun⟩
    -- Without a higher count of the kernel the count is at most what was emitted.
    have hguard : b.highest ≤ b.emitted := hguard
    show min (b.stats.packetsTotal + 1) _ ≤ max (b.emitted + 1) b.highest
    omega
  | case5 =>
    rintro ⟨⟩
    refine ⟨hstats, fun snapshot hmem => ?_, nofun⟩
    rcases List.mem_append.mp hmem with hold | hnew
    · exact hqueries snapshot hold
    · rw [List.mem_singleton.mp hnew]
      exact hstats
  | case6 =>
    rintro ⟨⟩
    refine ⟨hstats, hqueries, ?_⟩
    rintro _ ⟨⟩
    exact hstats
  | case8 query snapshot hsnapshot =>
    rintro ⟨⟩
    exact ⟨hstats, fun _ hmem => hqueries _ (List.mem_of_mem_eraseIdx hmem), nofun⟩
  | case9 query snapshot stat hsnapshot _ =>
    rintro ⟨⟩
    have hold := hqueries _ (List.mem_of_getElem? hsnapshot)
    have hnew : max snapshot.packetsTotal stat.received ≤
        max b.emitted (max b.highest stat.received) := by omega
    refine ⟨hnew, fun other hmem => ?_, ?_⟩
    · have hother := hqueries other (List.mem_of_mem_eraseIdx hmem)
      show other.packetsTotal ≤ max b.emitted (max b.highest stat.received)
      omega
    · rintro _ ⟨⟩
      exact hnew
  | case10 =>
    rintro ⟨⟩
    exact ⟨hstats, hqueries, nofun⟩
  | _ => rintro ⟨⟩

/-- While no query has seen more packets than were emitted when the next one comes in, no query
reports more than what was emitted or the kernel has counted. -/
theorem reported_le_of_notAhead {run : List Action} {b : Backend}
    (hguard : Guarded step NotAhead {} run) (hrun : exec step {} run = some b) {count : ℕ}
    (hreported : b.reported = some count) : count ≤ max b.emitted b.highest := by
  have hinit : Bounded {} := ⟨Nat.zero_le _, by simp, by simp⟩
  have hbounded : Bounded b :=
    exec_invariant (fun _ _ _ h hguard hstep => h.step hguard hstep) hinit hguard hrun
  exact hbounded.reported_le count hreported

/-- A query asks the kernel, which has counted some packets. -/
def queryStats (received : ℕ) : List Action := [.stats, .answer 0 (some ⟨received, 0, 0⟩)]

/-- Two packets, a query behind each of them, and a second capture. -/
def twoCaptures : List Action :=
  .open :: .recvPacket 0 1 :: queryStats 1 ++ .recvPacket 5 3 :: queryStats 2 ++
    .close :: .open :: .recvPacket 7 1 :: queryStats 4

theorem reported_le_twoCaptures :
    ∃ b, exec step {} twoCaptures = some b ∧ b.reported = some 4 ∧ 4 ≤ max b.emitted b.highest :=
  ⟨_, rfl, rfl, reported_le_of_notAhead (by decide : Guarded step NotAhead {} twoCaptures) rfl rfl⟩

/-- The kernel has counted two packets before the first one is emitted. The next query reports
three. -/
theorem reported_above :
    ∃ b, exec step {} (.open :: queryStats 2 ++ .recvPacket 0 1 :: queryStats 2) = some b ∧
      b.reported = some 3 ∧ max b.emitted b.highest = 2 := by
  exact ⟨_, rfl, rfl, rfl⟩

end TraceMux.Core.Source.NativePcap
