/-
# The pcapng files of a capture source

A capture source that saves to pcapng creates the file anew at every start. All starts of
a source go to the same path: the one it is configured with, or a fixed name in the
directory that stop, resume and restart leave to it. What an earlier run has written there
is gone when a later run has started.
-/

import Mathlib.Algebra.BigOperators.Group.Finset.Basic
import Mathlib.Algebra.Order.BigOperators.Group.Finset
import Mathlib.Algebra.Order.Group.Multiset
import TraceMux.Core.PcapngStream
import TraceMux.Server.DistinctDirs

namespace TraceMux.Server.PcapArtifacts

open Base Base.Transition TraceMux.Core Core.Source Core.Log Core.Exporter.Pcapng List
open Core.PcapngStream (ReadableFormat HasRoom Sized written_eq libraryFormat)

/-- The label of the interface, as it is shown to the operator. -/
def ifaceLabel (config : PcapConfig) : String :=
  (config.displayName.filter (· ≠ "")).getD config.interface

/-- Where the packets of a capture go, if anywhere. -/
def pcapngPath (config : PcapConfig) (sessionDir : Option Path) : Option Path :=
  (config.pcapngPath.map fun path => PathName.components path.toList).or
    (sessionDir.map fun dir => dir ++ ["capture.pcapng".toList])

def directPcapngWriter (size : Block → ℕ) (disk : Disk) (config : PcapConfig)
    (sessionDir : Option Path) : Except TraceMuxError (Option (PcapngStreamWriter × Disk)) :=
  match config.saveMode with
  | .session => .ok none
  | .pcapng | .both =>
    match pcapngPath config sessionDir with
    | none => .error ⟨.E1001PipelineGeneric,
        "pcapng save requested but no pcapng_path or session-dir is available"⟩
    | some path => .ok (some (PcapngStreamWriter.create size disk { path := path }))

/-- One run of a capture, as far as the world decides it: whether the source can be opened,
and the packets it gives until it ends, fails or is aborted. -/
structure Capture where
  opens : Bool
  packets : List PcapPacket
  deriving DecidableEq, Repr

/-- The loop of the runner: append packets until one is refused. -/
def recvLoop (size : Block → ℕ) (label : String) :
    PcapngStreamWriter → Disk → List PcapPacket → PcapngStreamWriter × Disk
  | w, disk, [] => (w, disk)
  | w, disk, packet :: rest =>
    match w.appendPacket size disk label packet with
    | (.error _, w, disk) => (w, disk)
    | (.ok _, w, disk) => recvLoop size label w disk rest

def filesOf (w : PcapngStreamWriter) (disk : Disk) : List CapturedPacket :=
  w.artifacts.dedup.flatMap (packetsAt disk)

/-- The files of a source: what is on the disk, the paths its writers have created, and the
packets its runs have written, as they were in the files at the end of each run. -/
structure Artifacts where
  disk : Disk
  paths : List Path
  written : List CapturedPacket

def Artifacts.initial (disk : Disk) : Artifacts := ⟨disk, [], []⟩

/-- A run of a capture. Nothing happens to the files when the source cannot be opened or no
writer is made. -/
def runPcapOnce (size : Block → ℕ) (config : PcapConfig) (a : Artifacts)
    (start : Option Path × Capture) : Artifacts :=
  if start.2.opens then
    match directPcapngWriter size a.disk config start.1 with
    | .error _ => a
    | .ok none => a
    | .ok (some (w, disk)) =>
      let r := recvLoop size (ifaceLabel config) w disk start.2.packets
      ⟨r.2, a.paths ++ r.1.artifacts, a.written ++ filesOf r.1 r.2⟩
  else a

def runAll (size : Block → ℕ) (config : PcapConfig) (a : Artifacts)
    (starts : List (Option Path × Capture)) : Artifacts :=
  starts.foldl (runPcapOnce size config) a

/-- The packets that are in the files of the source. -/
def Artifacts.present (a : Artifacts) : Multiset CapturedPacket :=
  ∑ path ∈ a.paths.toFinset, (packetsAt a.disk path : Multiset CapturedPacket)

/-- All packets the runs of the source have written are in its files. -/
def Artifacts.Kept (a : Artifacts) : Prop := (a.written : Multiset CapturedPacket) ≤ a.present

instance (a : Artifacts) : Decidable a.Kept :=
  inferInstanceAs (Decidable ((a.written : Multiset CapturedPacket) ≤ a.present))

/-- The file a run of a capture creates. -/
def basePath (config : PcapConfig) (sessionDir : Option Path) : Option Path :=
  match config.saveMode with
  | .session => none
  | .pcapng | .both => pcapngPath config sessionDir

/-- Whether a run of a capture writes a packet: the source can be opened, there is a file, and
the first packet is not from before the epoch. -/
def writes (config : PcapConfig) (start : Option Path × Capture) : Bool :=
  start.2.opens && (basePath config start.1).isSome &&
    start.2.packets.head?.any fun packet => 0 ≤ packet.tsOriginNs

section Run

variable (size : Block → ℕ) {config : PcapConfig} {base : Path} {dir : Option Path}
  {start : Option Path × Capture} {written : List CapturedPacket}

/-- No block is ruled out. -/
def AnyBlock (_ : Block) : Prop := True

theorem allows_any (label : String) (packet : PcapPacket) : Allows AnyBlock label packet :=
  ⟨trivial, fun _ _ _ => trivial⟩

theorem directPcapngWriter_of_no_basePath (disk : Disk) (h : basePath config dir = none) :
    ∀ writer, directPcapngWriter size disk config dir ≠ .ok (some writer) := by
  intro writer hwriter
  unfold basePath at h
  unfold directPcapngWriter at hwriter
  split at h
  · next hmode => simp [hmode] at hwriter
  all_goals
    next hmode => simp [hmode, h] at hwriter

/-- A run that creates no file. -/
theorem runPcapOnce_idle (a : Artifacts)
    (h : start.2.opens = false ∨ basePath config start.1 = none) :
    runPcapOnce size config a start = a ∧ writes config start = false := by
  rcases h with hclosed | hnone
  · simp [runPcapOnce, writes, hclosed]
  · refine ⟨?_, by simp [writes, hnone]⟩
    rw [runPcapOnce]
    split
    · split
      · rfl
      · rfl
      · next w disk hwriter =>
        exact absurd hwriter (directPcapngWriter_of_no_basePath size a.disk hnone _)
    · rfl

variable {w : PcapngStreamWriter} {disk₀ disk : Disk}

variable (label : String) (packets : List PcapPacket)

/-- The loop writes to the artifacts only, and leaves a packet in the first file there. -/
theorem recvLoop_frame {P : Block → Prop} (hheader : P .sectionHeader)
    (hallows : ∀ packet ∈ packets, Allows P label packet) (h : StreamFrame P disk₀ base w disk) :
    StreamFrame P disk₀ base (recvLoop size label w disk packets).1
        (recvLoop size label w disk packets).2 ∧
      (packetsAt disk base ≠ [] →
        packetsAt (recvLoop size label w disk packets).2 base ≠ []) := by
  induction packets generalizing w disk with
  | nil => exact ⟨h, id⟩
  | cons packet rest ih =>
    obtain ⟨hpacket, hrest⟩ := forall_mem_cons.mp hallows
    obtain ⟨hframe, hbase⟩ := h.appendPacket size hpacket hheader
    rw [recvLoop]
    split
    · next e w' disk' happend =>
      rw [happend] at hframe hbase
      exact ⟨hframe, hbase⟩
    · next w' disk' happend =>
      rw [happend] at hframe hbase
      obtain ⟨hlater, hlaterBase⟩ := ih hrest hframe
      exact ⟨hlater, fun hne => hlaterBase (hbase hne)⟩

/-- While the parts of a stream can be numbered, its files hold the packets it has taken. -/
theorem filesOf_eq (h : StreamOk base w disk written) : filesOf w disk = written := by
  rw [filesOf, h.artifacts_nodup.dedup, h.artifacts_eq, flatMap_map, h.packets_eq]

/-- While the parts can be numbered, the loop takes the packets before the first from before
the epoch. -/
theorem recvLoop_streamOk (h : StreamOk base w disk written)
    (hcounts : StreamCounts w written) (hsmall : written.length + packets.length ≤ u32Max) :
    StreamOk base (recvLoop size label w disk packets).1
      (recvLoop size label w disk packets).2
      (written ++ (packets.takeWhile fun packet => 0 ≤ packet.tsOriginNs).map
        (PcapPacket.captured · label)) := by
  induction packets generalizing w disk written with
  | nil => simpa [recvLoop] using h
  | cons packet rest ih =>
    rw [length_cons] at hsmall
    obtain ⟨res, w', disk', happend, hres, hok, hcounts'⟩ :=
      h.appendPacket size hcounts (by omega) label packet
    rw [recvLoop, happend]
    by_cases hts : 0 ≤ packet.tsOriginNs
    · cases res with
      | error e => exact absurd (hres.mpr hts) (by simp [Except.isOk, Except.toBool])
      | ok _ =>
        have hcounts'' := hcounts' rfl
        rw [PcapPacket.accepted, if_pos hts] at hok hcounts''
        have hroom : (written ++ [packet.captured label]).length + rest.length ≤ u32Max := by
          rw [length_append, length_singleton]
          omega
        simpa [hts] using ih hok hcounts'' hroom
    · cases res with
      | error e => simpa [PcapPacket.accepted, hts] using hok
      | ok _ => exact absurd (hres.mp rfl) hts

/-- A run whose parts can be numbered, with packets that the fields of a file have room for, leaves
in the bytes of its files, in order, the packets before the first from before the epoch. -/
theorem filesOf_recvLoop (fmt : ReadableFormat) (disk : Disk) (base : Path) (label : String)
    {packets : List PcapPacket} (hsmall : packets.length ≤ u32Max)
    (hroom : ∀ packet ∈ packets, HasRoom label packet) :
    let created := PcapngStreamWriter.create size disk { path := base }
    let r := recvLoop size label created.1 created.2 packets
    PcapngStream.written fmt r.1 r.2 =
      (packets.takeWhile fun packet => 0 ≤ packet.tsOriginNs).map
        (PcapPacket.captured · label) := by
  have hok := recvLoop_streamOk size label packets (streamOk_create size disk { path := base })
    (streamCounts_create size disk { path := base }) (by simpa using hsmall)
  have hframe := recvLoop_frame size label packets (P := Sized) trivial
    (fun packet hpacket => (hroom packet hpacket).allows)
    (streamFrame_create size trivial disk { path := base })
  exact written_eq fmt hok hframe.1

/-- The third packet is from before the epoch and ends the run. -/
theorem filesOf_recvLoop_before_epoch :
    let created := PcapngStreamWriter.create (fun _ => 0) (fun _ => none) { path := [['c']] }
    let r := recvLoop (fun _ => 0) "eth0" created.1 created.2
      [⟨0, 1, 1, [1]⟩, ⟨5, 90, 113, [2, 3]⟩, ⟨-1, 1, 1, [4]⟩, ⟨0, 1, 1, [5]⟩]
    PcapngStream.written libraryFormat r.1 r.2 =
      [PcapPacket.captured ⟨0, 1, 1, [1]⟩ "eth0",
        PcapPacket.captured ⟨5, 90, 113, [2, 3]⟩ "eth0"] := by
  refine filesOf_recvLoop _ _ _ _ _ (by decide) ?_
  simp only [forall_mem_cons]
  refine ⟨⟨?_, ?_, ?_, ?_, ?_⟩, ⟨?_, ?_, ?_, ?_, ?_⟩, ⟨?_, ?_, ?_, ?_, ?_⟩, ⟨?_, ?_, ?_, ?_, ?_⟩,
    by simp⟩ <;> decide

theorem recvLoop_first :
    let created := PcapngStreamWriter.create size disk { path := base }
    let r := recvLoop size label created.1 created.2 packets
    ((packets.head?.any fun packet => 0 ≤ packet.tsOriginNs) = true → packetsAt r.2 base ≠ []) ∧
      ((packets.head?.any fun packet => 0 ≤ packet.tsOriginNs) = false → filesOf r.1 r.2 = []) := by
  have hcreated := streamOk_create size disk { path := base }
  cases packets with
  | nil => exact ⟨fun h => (by cases h), fun _ => filesOf_eq hcreated⟩
  | cons packet rest =>
    obtain ⟨res, w, disk', happend, hres, hok, -⟩ := hcreated.appendPacket size
      (streamCounts_create size disk { path := base }) (by decide) label packet
    rw [PcapPacket.accepted] at hok
    simp only [recvLoop, happend, head?_cons, Option.any_some]
    by_cases hts : 0 ≤ packet.tsOriginNs
    · rw [if_pos hts] at hok
      cases res with
      | error e => exact absurd (hres.mpr hts) (by simp [Except.isOk, Except.toBool])
      | ok _ =>
        refine ⟨fun _ => ?_, fun h => by simp [hts] at h⟩
        have hframe := ((streamFrame_create size trivial disk { path := base }).appendPacket size
          (allows_any label packet) trivial).1
        rw [happend] at hframe
        exact (recvLoop_frame size label rest trivial (fun p _ => allows_any label p) hframe).2
          (hok.base_packets (by simp))
    · rw [if_neg hts] at hok
      cases res with
      | error e => exact ⟨fun h => (by simp [hts] at h), fun _ => filesOf_eq hok⟩
      | ok _ => exact absurd (hres.mp rfl) hts

theorem filesOf_ne_nil (hmem : base ∈ w.artifacts) (hne : packetsAt disk base ≠ []) :
    filesOf w disk ≠ [] := by
  intro hnil
  rw [filesOf, flatMap_eq_nil_iff] at hnil
  exact hne (hnil base (mem_dedup.mpr hmem))

theorem runPcapOnce_created (a : Artifacts) (hopens : start.2.opens = true)
    (hbase : basePath config start.1 = some base) :
    ∃ w disk, runPcapOnce size config a start =
        ⟨disk, a.paths ++ w.artifacts, a.written ++ filesOf w disk⟩ ∧
      StreamFrame AnyBlock a.disk base w disk ∧
      (filesOf w disk = [] ↔ writes config start = false) ∧
      (filesOf w disk ≠ [] → packetsAt disk base ≠ []) := by
  have hframe := recvLoop_frame size (ifaceLabel config) start.2.packets trivial
    (fun p _ => allows_any (ifaceLabel config) p)
    (streamFrame_create size trivial a.disk { path := base })
  have hfirst := @recvLoop_first size base a.disk (ifaceLabel config) start.2.packets
  refine ⟨_, _, ?_, hframe.1, ?_⟩
  · have hwriter : directPcapngWriter size a.disk config start.1 =
        .ok (some (PcapngStreamWriter.create size a.disk { path := base })) := by
      unfold basePath at hbase
      unfold directPcapngWriter
      split at hbase
      · cases hbase
      all_goals
        next => simp only [hbase]
    rw [runPcapOnce, if_pos hopens, hwriter]
  · simp only [writes, hopens, hbase, Option.isSome_some, Bool.and_self, Bool.true_and]
    cases hany : start.2.packets.head?.any fun packet => 0 ≤ packet.tsOriginNs with
    | true =>
      have hpackets := hfirst.1 hany
      exact ⟨iff_of_false (filesOf_ne_nil hframe.1.base_mem hpackets) (by simp),
        fun _ => hpackets⟩
    | false =>
      have hfiles := hfirst.2 hany
      exact ⟨iff_of_true hfiles rfl, fun hne => absurd hfiles hne⟩

end Run

variable {a : Artifacts} {base : Path} {w : PcapngStreamWriter}

/-- After a run that creates its file, the files of the source hold what the run has written
and what is left in the files it has not created. -/
theorem present_created {disk : Disk} (h : StreamFrame AnyBlock a.disk base w disk) :
    (⟨disk, a.paths ++ w.artifacts, a.written ++ filesOf w disk⟩ : Artifacts).present =
      ∑ path ∈ a.paths.toFinset \ w.artifacts.toFinset,
        (packetsAt a.disk path : Multiset CapturedPacket) + filesOf w disk := by
  rw [Artifacts.present, toFinset_append, ← Finset.sdiff_union_self_eq_union,
    Finset.sum_union Finset.sdiff_disjoint]
  congr 1
  swap
  · exact Multiset.coe_bind w.artifacts.dedup (packetsAt disk)
  apply Finset.sum_congr rfl
  intro path hpath
  have hout : path ∉ w.artifacts := by simpa using (Finset.mem_sdiff.mp hpath).2
  rw [packetsAt_congr (h.untouched path hout)]

/-- What holds of the files of a source whose runs create `base`. -/
structure Accounted (base : Path) (a : Artifacts) : Prop where
  card_le : a.present.card ≤ a.written.length
  base_mem : a.written ≠ [] → base ∈ a.paths
  /-- Either there is a packet in the first file, or some packet has been lost. -/
  base_packets : a.written ≠ [] →
    packetsAt a.disk base ≠ [] ∨ a.present.card < a.written.length

theorem accounted_initial (base : Path) (disk : Disk) : Accounted base (.initial disk) where
  card_le := by simp [Artifacts.present, Artifacts.initial]
  base_mem h := absurd rfl h
  base_packets h := absurd rfl h

/-- What is left of the files a run has not created is less than there was. -/
theorem card_left_add_le (hbase : base ∈ w.artifacts) (hmem : base ∈ a.paths) :
    (∑ path ∈ a.paths.toFinset \ w.artifacts.toFinset,
        (packetsAt a.disk path : Multiset CapturedPacket)).card +
      (packetsAt a.disk base).length ≤ a.present.card := by
  have hsubset : a.paths.toFinset \ w.artifacts.toFinset ⊆ a.paths.toFinset.erase base := by
    intro path hpath
    obtain ⟨hin, hout⟩ := Finset.mem_sdiff.mp hpath
    refine Finset.mem_erase.mpr ⟨fun heq => hout ?_, hin⟩
    rw [heq]
    exact mem_toFinset.mpr hbase
  have hsum := Finset.sum_erase_add a.paths.toFinset
    (fun path => (packetsAt a.disk path : Multiset CapturedPacket)) (mem_toFinset.mpr hmem)
  rw [Artifacts.present, ← hsum, Multiset.card_add, Multiset.coe_card]
  exact Nat.add_le_add_right (Multiset.card_le_card (Finset.sum_le_sum_of_subset hsubset)) _

section Created

variable {disk : Disk}

/-- Once a packet has been written, the next run that creates its file loses one. -/
theorem Accounted.lost (h : Accounted base a) (hframe : StreamFrame AnyBlock a.disk base w disk)
    (hne : a.written ≠ []) :
    (⟨disk, a.paths ++ w.artifacts, a.written ++ filesOf w disk⟩ : Artifacts).present.card <
      (a.written ++ filesOf w disk).length := by
  have hleft := card_left_add_le hframe.base_mem (h.base_mem hne)
  have hcard := h.card_le
  rw [present_created hframe, Multiset.card_add, Multiset.coe_card, length_append]
  rcases h.base_packets hne with hpackets | hlost
  · have hpos := length_pos_of_ne_nil hpackets
    omega
  · omega

theorem Accounted.created (h : Accounted base a) (hframe : StreamFrame AnyBlock a.disk base w disk)
    (hbase : filesOf w disk ≠ [] → packetsAt disk base ≠ []) :
    Accounted base ⟨disk, a.paths ++ w.artifacts, a.written ++ filesOf w disk⟩ := by
  refine ⟨?_, fun _ => mem_append_right _ hframe.base_mem, fun hne => ?_⟩
  · have hleft : ∑ path ∈ a.paths.toFinset \ w.artifacts.toFinset,
        (packetsAt a.disk path : Multiset CapturedPacket) ≤ a.present :=
      Finset.sum_le_sum_of_subset Finset.sdiff_subset
    rw [present_created hframe, Multiset.card_add, Multiset.coe_card, length_append]
    exact Nat.add_le_add_right ((Multiset.card_le_card hleft).trans h.card_le) _
  · by_cases hwritten : a.written = []
    · left
      apply hbase
      simpa [hwritten] using hne
    · exact .inr (h.lost hframe hwritten)

/-- A run that creates its file keeps the packets of the runs before it exactly when they
have written none. -/
theorem kept_created_iff (h : Accounted base a) (hframe : StreamFrame AnyBlock a.disk base w disk) :
    (⟨disk, a.paths ++ w.artifacts, a.written ++ filesOf w disk⟩ : Artifacts).Kept ↔
      a.written = [] := by
  constructor
  · intro hkept
    by_contra hne
    have hcard := Multiset.card_le_card hkept
    exact absurd (h.lost hframe hne) (Nat.not_lt.mpr hcard)
  · intro hnil
    rw [Artifacts.Kept, present_created hframe]
    simp [hnil]

end Created

section Runs

variable (size : Block → ℕ) {config : PcapConfig} {dir : Option Path}

variable {starts : List (Option Path × Capture)}

/-- The files of a source after any number of runs that create the same file. -/
theorem runAll_accounted {base : Path} (hbase : basePath config dir = some base) (disk : Disk)
    (hdir : ∀ start ∈ starts, start.1 = dir) :
    Accounted base (runAll size config (.initial disk) starts) ∧
      ((runAll size config (.initial disk) starts).written = [] ↔
        ∀ start ∈ starts, writes config start = false) := by
  induction starts using reverseRecOn with
  | nil => exact ⟨accounted_initial base disk, by simp [runAll, Artifacts.initial]⟩
  | append_singleton starts start ih =>
    obtain ⟨hacc, hwritten⟩ := ih fun s hs => hdir s (mem_append_left _ hs)
    rw [runAll, foldl_concat, ← runAll]
    simp only [forall_mem_append, forall_mem_singleton, ← hwritten]
    by_cases hopens : start.2.opens = true
    · rw [← hdir start (by simp)] at hbase
      obtain ⟨w, disk', hrun, hframe, hfiles, hpackets⟩ :=
        runPcapOnce_created size (runAll size config (.initial disk) starts) hopens hbase
      rw [hrun]
      refine ⟨hacc.created hframe hpackets, ?_⟩
      rw [append_eq_nil_iff, hfiles]
    · obtain ⟨hrun, hnone⟩ :=
        runPcapOnce_idle size (runAll size config (.initial disk) starts)
          (.inl (Bool.eq_false_iff.mpr hopens))
      rw [hrun, hnone]
      exact ⟨hacc, by simp⟩

theorem forall_take_concat_iff {Start : Type*} {P : List Start → Prop} {starts : List Start}
    {start : Start} :
    (∀ n ≤ (starts ++ [start]).length, P ((starts ++ [start]).take n)) ↔
      (∀ n ≤ starts.length, P (starts.take n)) ∧ P (starts ++ [start]) := by
  constructor
  · intro h
    refine ⟨fun n hn => ?_, ?_⟩
    · have htake := h n (by simp; omega)
      rwa [take_append_of_le_length hn] at htake
    · have hall := h _ le_rfl
      rwa [take_length] at hall
  · rintro ⟨hearlier, hall⟩ n hn
    rcases Nat.lt_or_ge starts.length n with hlt | hle
    · rw [take_of_length_le (by simp; omega)]
      exact hall
    · rw [take_append_of_le_length hle]
      exact hearlier n hle

/-- The packets of all runs are kept by every later run exactly when no run that creates its
file comes after one that has written a packet. -/
theorem kept_iff (disk : Disk) (hdir : ∀ start ∈ starts, start.1 = dir) :
    (∀ n ≤ starts.length, (runAll size config (.initial disk) (starts.take n)).Kept) ↔
      starts.Pairwise fun start later => writes config start = false ∨ later.2.opens = false := by
  induction starts using reverseRecOn with
  | nil => simp [Artifacts.Kept, runAll, Artifacts.initial]
  | append_singleton starts start ih =>
    have hdir' : ∀ s ∈ starts, s.1 = dir := fun s hs => hdir s (mem_append_left _ hs)
    have hlast : start.1 = dir := hdir start (by simp)
    refine (forall_take_concat_iff
      (P := fun runs => (runAll size config (.initial disk) runs).Kept)).trans ?_
    rw [ih hdir', pairwise_append]
    apply and_congr_right
    intro hearlier
    have hbefore := (ih hdir').mpr hearlier starts.length le_rfl
    rw [take_length] at hbefore
    simp only [pairwise_singleton, mem_singleton, forall_eq, true_and]
    rw [runAll, foldl_concat, ← runAll]
    cases hbase : basePath config start.1 with
    | none =>
      rw [(runPcapOnce_idle size _ (.inr hbase)).1]
      refine iff_of_true hbefore fun s hs => .inl ?_
      rw [hlast, ← hdir' s hs] at hbase
      exact (runPcapOnce_idle size (.initial disk) (.inr hbase)).2
    | some base =>
      cases hopens : start.2.opens with
      | false =>
        rw [(runPcapOnce_idle size _ (.inl hopens)).1]
        exact iff_of_true hbefore fun s hs => .inr rfl
      | true =>
        obtain ⟨w, disk', hrun, hframe, -⟩ :=
          runPcapOnce_created size (runAll size config (.initial disk) starts) hopens hbase
        rw [hlast] at hbase
        obtain ⟨hacc, hwritten⟩ := runAll_accounted size hbase disk hdir'
        rw [hrun, kept_created_iff hacc hframe, hwritten]
        simp

end Runs

def captureConfig (m : Manager) (sid : Sid) : Option PcapConfig :=
  match m.sources sid with
  | some { spec := some (.pcap config), .. } => some config
  | _ => none

/-- The runs of a source, in the order in which they were spawned. -/
def startsOf (m : Manager) (sid : Sid) (captures : TaskId → Capture) :
    List (Option Path × Capture) :=
  (List.range m.nextTask).filterMap fun t =>
    match m.tasks t with
    | some task => if task.sid = sid then some (task.sessionDir, captures t) else none
    | none => none

/-- Whatever is started, stopped, resumed and restarted, every run of a capture source in the
table keeps the packets of the runs before it exactly when no run that can open the source
comes after one that has written a packet. -/
theorem runs_keep_packets_iff {managerConfig : ManagerConfig} {actions : List Manager.Action}
    {m : Manager} (hrun : exec Manager.step (Manager.new managerConfig) actions = some m)
    {sid : Sid} {config : PcapConfig} (hconfig : captureConfig m sid = some config)
    (size : Block → ℕ) (disk : Disk) (captures : TaskId → Capture) :
    (∀ n ≤ (startsOf m sid captures).length,
        (runAll size config (.initial disk) ((startsOf m sid captures).take n)).Kept) ↔
      (startsOf m sid captures).Pairwise fun start later =>
        writes config start = false ∨ later.2.opens = false := by
  obtain ⟨e, he⟩ : ∃ e, m.sources sid = some e := by
    cases he : m.sources sid with
    | none => simp [captureConfig, he] at hconfig
    | some e => exact ⟨e, rfl⟩
  -- Every run of a source that is in the table has the directory of its row.
  have hdir : ∀ start ∈ startsOf m sid captures, start.1 = e.sessionDir := by
    intro start hstart
    obtain ⟨t, -, ht⟩ := mem_filterMap.mp hstart
    split at ht
    · next task htask =>
      obtain ⟨rfl, hsame⟩ := Option.ite_none_right_eq_some.mp ht
      rw [← Option.some.inj hsame]
      exact (Manager.born_of_run hrun).taskDir_eq htask (.inl ⟨e, he, rfl, rfl⟩)
    · cases ht
  exact kept_iff size disk hdir

def captureSpec : PcapConfig :=
  { interface := "eth0", saveMode := .pcapng, pcapngPath := some "c.pcapng" }

/-- A source is started and runs, is stopped, resumed and runs again. -/
def stopResume : List Manager.Action :=
  [.startSpec (.pcap captureSpec) {} (.epoch 1), .spawn 0, .register 0, .store 0, .stop 0,
    .resume 0 (.epoch 2), .spawn 1, .register 1, .store 1]

def onePacket (byte : UInt8) : PcapPacket := ⟨0, 1, 1, [byte]⟩

theorem empty_run_keeps_packets :
    ∃ m, exec Manager.step (Manager.new {}) stopResume = some m ∧
      ∀ n ≤ (startsOf m 0 fun t => ⟨true, if t = 0 then [] else [onePacket 1]⟩).length,
        (runAll (fun _ => 0) captureSpec (.initial fun _ => none)
          ((startsOf m 0 fun t => ⟨true, if t = 0 then [] else [onePacket 1]⟩).take n)).Kept := by
  obtain ⟨m, hm, hconfig, hstarts⟩ : ∃ m, exec Manager.step (Manager.new {}) stopResume = some m ∧
      captureConfig m 0 = some captureSpec ∧
      startsOf m 0 (fun t => ⟨true, if t = 0 then [] else [onePacket 1]⟩) =
        [(none, ⟨true, []⟩), (none, ⟨true, [onePacket 1]⟩)] :=
    ⟨_, rfl, rfl, rfl⟩
  refine ⟨m, hm, (runs_keep_packets_iff hm hconfig (fun _ => 0) (fun _ => none) _).mpr ?_⟩
  rw [hstarts]
  decide

/-- Two runs that each write a packet: the second creates the file anew, and the packet of
the first is in no file of the source any more. -/
theorem resume_discards_packet :
    ∃ m, exec Manager.step (Manager.new {}) stopResume = some m ∧
      captureConfig m 0 = some captureSpec ∧
      let files := runAll (fun _ => 0) captureSpec (.initial fun _ => none)
        (startsOf m 0 fun t => ⟨true, [onePacket (if t = 0 then 1 else 2)]⟩)
      files.written = [(onePacket 1).captured "eth0", (onePacket 2).captured "eth0"] ∧
        files.present = {(onePacket 2).captured "eth0"} ∧ ¬ files.Kept := by
  refine ⟨_, rfl, rfl, ?_, ?_, ?_⟩
  · decide
  · decide
  · decide

end TraceMux.Server.PcapArtifacts
