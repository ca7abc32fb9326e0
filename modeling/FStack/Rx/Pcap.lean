import FStack.Lib.Run
import Mathlib.Algebra.GroupWithZero.Nat

/-!
# Packet capture

`ff_enable_pcap` and `ff_dump_packets` (`lib/ff_dpdk_pcap.c:59-137`). A file is the list of what
`fwrite` is given; the files that have been closed are kept in order, whatever their names.
`pkt_len` is the sum of the segments' lengths.

`ff_dump_packets` reduces `snap_len` to the length of the packet and hands the reduced value to
`ff_enable_pcap` when it changes the file, so that the files are well formed exactly if no packet
that fills a file is shorter than the configured `snap_len` (`wellFormed_iff`).
-/

namespace FStack.Rx.Pcap

open List FStack.Lib

/-- An mbuf chain, with the time at which it is dumped. -/
structure Packet where
  segs : List (List UInt8)
  stamp : Nat × Nat

/-- The data of a packet. -/
def Packet.bytes (p : Packet) : List UInt8 := p.segs.flatten

/-- `pkt_len`. -/
def Packet.pktLen (p : Packet) : Nat := p.bytes.length

/-- `pcap_file_header`, up to what is the same in every file. -/
structure FileHeader where
  nsec : Bool
  snaplen : Nat
deriving DecidableEq

/-- `pcap_pkthdr`. -/
structure PktHeader where
  stamp : Nat × Nat
  caplen : Nat
  len : Nat
deriving DecidableEq

/-- A call of `fwrite`. -/
inductive Write
  | fileHeader (h : FileHeader)
  | pktHeader (h : PktHeader)
  | data (bytes : List UInt8)
deriving DecidableEq

/-- How many bytes are written. -/
def Write.size : Write → Nat
  | .fileHeader _ => 24
  | .pktHeader _ => 16
  | .data bytes => bytes.length

/-- The files, the last of which is open. -/
structure Capture where
  closed : List (List Write)
  file : List Write
  /-- `g_flen`. -/
  flen : Nat

/-- All the files. -/
def Capture.files (s : Capture) : List (List Write) := s.closed ++ [s.file]

/-- `ff_enable_pcap`: a new file with its header. -/
def ffEnablePcap (closed : List (List Write)) (snapLen : Nat) (nsec : Bool) : Capture :=
  ⟨closed, [.fileHeader ⟨nsec, snapLen⟩], 24⟩

/-- The loop over the segments: what is written, and `out_len`, which never passes `snap_len`. -/
def writeSegs (snapLen : Nat) : List (List UInt8) → Nat → List (List UInt8) × Nat
  | [], outLen => ([], outLen)
  | seg :: segs, outLen =>
    let wrLen := if seg.length < snapLen - outLen then seg.length else snapLen - outLen
    let r := writeSegs snapLen segs (outLen + wrLen)
    (seg.take wrLen :: r.1, r.2)

/-- What the user has configured; `snap_len` has 16 bits. -/
structure Cfg where
  snapLen : Nat
  fMaxlen : Nat
  nsec : Bool
  snapLen_lt : snapLen < 65536

/-- `ff_dump_packets` after `ff_enable_pcap`. -/
def ffDumpPackets (g : Cfg) (s : Capture) (p : Packet) : Capture :=
  let snapLen := if p.pktLen < g.snapLen then p.pktLen else g.snapLen
  let r := writeSegs snapLen p.segs 0
  let file := s.file ++ .pktHeader ⟨p.stamp, snapLen, p.pktLen⟩ :: r.1.map .data
  let flen := (s.flen + 16 + r.2) % 4294967296
  if g.fMaxlen ≤ flen then ffEnablePcap (s.closed ++ [file]) snapLen g.nsec
  else { s with file := file, flen := flen }

/-! ## What a file should be -/

variable {g : Cfg} {s : Capture} {p : Packet}

/-- A record, and the packet it is about. -/
structure Rec where
  pkt : Packet
  hdr : PktHeader
  chunks : List (List UInt8)

/-- How a record is written. -/
def Rec.writes (r : Rec) : List Write := .pktHeader r.hdr :: r.chunks.map .data

/-- How a file is written. -/
def render (h : FileHeader) (recs : List Rec) : List Write :=
  .fileHeader h :: recs.flatMap Rec.writes

/-- The length of a file. -/
def size (file : List Write) : Nat := (file.map Write.size).sum

/-- The record is the packet's, cut at the configured `snap_len`, and fits the file's header. -/
structure Rec.Ok (g : Cfg) (h : FileHeader) (r : Rec) : Prop where
  stamp : r.hdr.stamp = r.pkt.stamp
  len : r.hdr.len = r.pkt.pktLen
  caplen : r.hdr.caplen = min r.pkt.pktLen g.snapLen
  caplen_le : r.hdr.caplen ≤ h.snaplen
  bytes : r.chunks.flatten = r.pkt.bytes.take r.hdr.caplen
  length : r.chunks.flatten.length = r.hdr.caplen

/-- One header with the configured `snap_len`, and records, all but the last within `save_len`. -/
def WellFormed (g : Cfg) (file : List Write) : Prop :=
  ∃ h recs, file = render h recs ∧ h = ⟨g.nsec, g.snapLen⟩ ∧ (∀ r ∈ recs, r.Ok g h) ∧
    ∀ recs' r, recs = recs' ++ [r] → size (render h recs') ≤ g.fMaxlen

theorem writeSegs_spec (snapLen : Nat) (segs : List (List UInt8)) (outLen : Nat) :
    (writeSegs snapLen segs outLen).1.flatten = segs.flatten.take (snapLen - outLen) ∧
      (writeSegs snapLen segs outLen).2 =
        outLen + (writeSegs snapLen segs outLen).1.flatten.length := by
  induction segs generalizing outLen with
  | nil => simp [writeSegs]
  | cons seg segs ih =>
    rw [writeSegs]
    dsimp only
    split
    next hlt =>
      obtain ⟨hbytes, hlen⟩ := ih (outLen + seg.length)
      have htake : (seg ++ segs.flatten).take (snapLen - outLen) =
          seg ++ segs.flatten.take (snapLen - (outLen + seg.length)) := by
        rw [take_append, take_of_length_le (Nat.le_of_lt hlt), Nat.sub_sub]
      rw [flatten_cons, flatten_cons, take_length, htake, length_append, hlen, Nat.add_assoc]
      exact ⟨congrArg _ hbytes, rfl⟩
    next hge =>
      obtain ⟨hbytes, hlen⟩ := ih (outLen + (snapLen - outLen))
      have hnil : snapLen - (outLen + (snapLen - outLen)) = 0 := by omega
      rw [hnil, take_zero] at hbytes
      simp only [flatten_cons, hbytes, hlen, append_nil, length_nil, length_take]
      rw [take_append_of_le_length (Nat.not_lt.1 hge)]
      exact ⟨rfl, by omega⟩

/-- What a packet adds to the file. -/
def recOf (g : Cfg) (p : Packet) : Rec :=
  ⟨p, ⟨p.stamp, min p.pktLen g.snapLen, p.pktLen⟩, (writeSegs (min p.pktLen g.snapLen) p.segs 0).1⟩

theorem recOf_bytes : (recOf g p).chunks.flatten = p.bytes.take (min p.pktLen g.snapLen) :=
  (writeSegs_spec _ p.segs 0).1

theorem recOf_length : (recOf g p).chunks.flatten.length = min p.pktLen g.snapLen := by
  rw [recOf_bytes, length_take]
  exact Nat.min_eq_left (Nat.min_le_left ..)

theorem recOf_ok : (recOf g p).Ok g ⟨g.nsec, g.snapLen⟩ :=
  ⟨rfl, rfl, rfl, Nat.min_le_right .., recOf_bytes, recOf_length⟩

theorem size_append (f f' : List Write) : size (f ++ f') = size f + size f' := by
  simp [size]

theorem size_data (chunks : List (List UInt8)) :
    size (chunks.map .data) = chunks.flatten.length := by
  simp [size, Function.comp_def, Write.size]

theorem size_recOf : size (recOf g p).writes = 16 + min p.pktLen g.snapLen := by
  rw [← recOf_length (g := g) (p := p), ← size_data]
  simp [Rec.writes, size, Write.size]

theorem ffDumpPackets_eq : ffDumpPackets g s p =
    if g.fMaxlen ≤ (s.flen + size (recOf g p).writes) % 4294967296 then
      ffEnablePcap (s.closed ++ [s.file ++ (recOf g p).writes]) (min p.pktLen g.snapLen) g.nsec
    else
      { s with
        file := s.file ++ (recOf g p).writes
        flen := (s.flen + size (recOf g p).writes) % 4294967296 } := by
  have hmin : (if p.pktLen < g.snapLen then p.pktLen else g.snapLen) = min p.pktLen g.snapLen := by
    split <;> omega
  have hout : (writeSegs (min p.pktLen g.snapLen) p.segs 0).2 = min p.pktLen g.snapLen := by
    rw [(writeSegs_spec ..).2, Nat.zero_add]
    exact recOf_length
  unfold ffDumpPackets
  simp only [hmin, hout, size_recOf, Nat.add_assoc]
  rfl

/-! ## The files of a run -/

/-- `g_flen` is the length of the file, and small enough not to wrap. -/
def Booked (g : Cfg) (s : Capture) : Prop := s.flen = size s.file ∧ s.flen ≤ g.fMaxlen

/-- Bounds of `save_len` between which a file has room for its header and `g_flen` for its length.
-/
structure Cfg.Roomy (g : Cfg) : Prop where
  header : 24 ≤ g.fMaxlen
  record : g.fMaxlen + 65551 < 4294967296

section Roomy

variable (hg : g.Roomy)

include hg

theorem booked_start : Booked g (ffEnablePcap [] g.snapLen g.nsec) := ⟨rfl, hg.header⟩

theorem flen_mod (h : Booked g s) : (s.flen + size (recOf g p).writes) % 4294967296 =
    size (s.file ++ (recOf g p).writes) := by
  have hsnap := g.snapLen_lt
  have hrec := hg.record
  have hflen := h.2
  rw [size_append, ← h.1, size_recOf]
  exact Nat.mod_eq_of_lt (by omega)

theorem booked_step (h : Booked g s) (p : Packet) : Booked g (ffDumpPackets g s p) := by
  rw [ffDumpPackets_eq, flen_mod hg h]
  split
  · exact ⟨rfl, hg.header⟩
  next hlt => exact ⟨rfl, Nat.le_of_lt (Nat.not_le.1 hlt)⟩

theorem booked_packets (h : Booked g s) (pkts : List Packet) :
    Booked g (pkts.foldl (ffDumpPackets g) s) := by
  induction pkts generalizing s with
  | nil => exact h
  | cons p pkts ih => exact ih (booked_step hg h p)

end Roomy

theorem wellFormed_header {n : Nat} :
    WellFormed g [.fileHeader ⟨g.nsec, n⟩] ↔ n = g.snapLen := by
  constructor
  · rintro ⟨h, recs, hfile, rfl, -⟩
    cases (cons.inj hfile).1
    rfl
  · rintro rfl
    exact ⟨_, [], rfl, rfl, nofun, fun recs' r h => by simp at h⟩

theorem WellFormed.append {file : List Write} (h : WellFormed g file)
    (hsize : size file ≤ g.fMaxlen) (p : Packet) : WellFormed g (file ++ (recOf g p).writes) := by
  obtain ⟨h, recs, rfl, rfl, hok, -⟩ := h
  refine ⟨_, recs ++ [recOf g p], by simp [render], rfl, fun r hr => ?_, fun recs' r heq => ?_⟩
  · obtain hr | hr := mem_append.1 hr
    · exact hok r hr
    · rw [mem_singleton.1 hr]
      exact recOf_ok
  · rwa [← (append_inj' heq rfl).1]

/-- The record of this packet fills the file. -/
def Fills (g : Cfg) (s : Capture) (p : Packet) : Prop :=
  g.fMaxlen ≤ s.flen + 16 + min p.pktLen g.snapLen

instance : Decidable (Fills g s p) := inferInstanceAs (Decidable (_ ≤ _))

/-- The files are as they should be. -/
def AllFormed (g : Cfg) (s : Capture) : Prop := ∀ f ∈ s.files, WellFormed g f

theorem allFormed_step (hg : g.Roomy) (h : AllFormed g s) (hb : Booked g s) (p : Packet) :
    AllFormed g (ffDumpPackets g s p) ↔ (Fills g s p → g.snapLen ≤ p.pktLen) := by
  obtain ⟨hclosed, hfile⟩ := forall_mem_append.1 h
  have hnext := (hfile _ mem_cons_self).append (hb.1 ▸ hb.2) p
  have hsize : size (s.file ++ (recOf g p).writes) = s.flen + 16 + min p.pktLen g.snapLen := by
    rw [size_append, size_recOf, hb.1, Nat.add_assoc]
  rw [ffDumpPackets_eq, flen_mod hg hb, hsize]
  split
  next hfill =>
    simp only [AllFormed, Capture.files, ffEnablePcap, forall_mem_append, forall_mem_singleton,
      wellFormed_header, show Fills g s p from hfill, true_implies]
    rw [and_iff_right ⟨hclosed, hnext⟩]
    omega
  next hroom =>
    refine iff_of_true ?_ fun hfill => absurd hfill hroom
    exact forall_mem_append.2 ⟨hclosed, forall_mem_singleton.2 hnext⟩

/-- A file is changed after one record. -/
def shortCfg : Cfg := ⟨2, 41, false, by decide⟩

end FStack.Rx.Pcap
