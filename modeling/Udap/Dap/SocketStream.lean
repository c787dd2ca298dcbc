/-
  THE OUTPUT BUFFER between the session and its socket: `socket_stream_buffer`.

  Characters are collected in `out_buf_` and handed to the socket in blocks, when the stream is
  flushed or when there is no more room.  `std::streambuf` stores a character at `pptr` as long as
  that is in front of `epptr`, and calls `overflow` with it otherwise.

  1. **Program** — the buffer, and an output stream on it.  A store outside of `out_buf_` has no
     result.

  2. **Invariant** — what was written is what was handed over and what is still in the buffer
     (`Holds`); every write keeps that, as long as there is room (`write_fits`).

  3. **Runs** — `delivered_iff_fits`: `setp` lets the buffer become full to its last byte, and
     `overflow` stores one character more behind it.  So everything goes well exactly if no more
     than `kBufSize` characters are written without a flush.
-/
import Udap.Cxx.Text
import Udap.Lib.Run

set_option linter.unusedVariables false

namespace Udap.Dap

open Udap.Run

/-! ## Program -/

def kBufSize : Nat := 4096

/-- `socket_stream_buffer` and what it has handed to `write_n`.  The put area starts at index 0 of
    `out_buf_`; `pptr` and `epptr` are indices, too. -/
structure SocketStreamBuffer where
  outBuf : Nat → UInt8 := fun _ => 0
  pptr : Nat := 0
  epptr : Nat := kBufSize
  sent : List Str := []

namespace SocketStreamBuffer

/-- What stands between `pbase` and `pptr`. -/
def block (b : SocketStreamBuffer) : Str := (List.range b.pptr).map b.outBuf

/-- `*pptr() = c; pbump(1)`, if `pptr` is inside of `out_buf_`. -/
def store (b : SocketStreamBuffer) (c : UInt8) : Option SocketStreamBuffer :=
  if b.pptr < kBufSize then
    some { b with outBuf := Function.update b.outBuf b.pptr c, pptr := b.pptr + 1 }
  else none

/-- `socket_.write_n`: what it returns for a block, after the blocks it was given before. -/
abbrev WriteN := List Str → Str → Int

variable (writeN : WriteN)

/-- `sync`: did it succeed? -/
def sync (b : SocketStreamBuffer) : Bool × SocketStreamBuffer :=
  if b.pptr > 0 then
    let handed := { b with sent := b.sent ++ [b.block] }
    -- after a short write the put area stays as it is
    if writeN b.sent b.block ≠ b.pptr then (false, handed)
    -- `setp` with the whole of `out_buf_`
    else (true, { handed with pptr := 0, epptr := kBufSize })
  else (true, b)

/-- `overflow`, and what it returns; no character stands for `eof`. -/
def overflow (b : SocketStreamBuffer) (c : Option UInt8) :
    Option (Option UInt8 × SocketStreamBuffer) :=
  -- the character is stored first, at `pptr`, wherever that is
  (c.elim (some b) b.store).map fun b =>
    let (synced, b) := b.sync writeN
    (if synced then c else none, b)

/-- `sputc`. -/
def sputc (b : SocketStreamBuffer) (c : UInt8) : Option (Option UInt8 × SocketStreamBuffer) :=
  if b.pptr < b.epptr then (b.store c).map fun b => (some c, b) else b.overflow writeN (some c)

/-- `xsputn`: was all of the text written? -/
def xsputn (b : SocketStreamBuffer) : Str → Option (Bool × SocketStreamBuffer)
  | [] => some (true, b)
  | c :: text =>
    (b.sputc writeN c).bind fun (put, b) => if put.isSome then b.xsputn text else some (false, b)

end SocketStreamBuffer

/-- A `std::ostream` on a buffer: `badbit` ends all writing. -/
structure OStream where
  buf : SocketStreamBuffer := {}
  bad : Bool := false

/-- What is done to an output stream. -/
inductive Write where
  | put (c : UInt8)
  | block (text : Str)
  | flush

namespace OStream

open SocketStreamBuffer

variable (writeN : WriteN)

/-- One write; none where a character is stored outside of the buffer. -/
def write (w : Write) (s : OStream) : Option OStream :=
  if s.bad then some s
  else
    match w with
    | .put c => (s.buf.sputc writeN c).map fun (put, b) => { buf := b, bad := put.isNone }
    | .block text => (s.buf.xsputn writeN text).map fun (all, b) => { buf := b, bad := !all }
    | .flush =>
      let (synced, b) := s.buf.sync writeN
      some { buf := b, bad := !synced }

end OStream

/-! ## Invariant -/

namespace Write

/-- The characters that are written. -/
def chars : Write → Str
  | .put c => [c]
  | .block text => text
  | .flush => []

/-- How many characters are not flushed after a write, if `n` were not before. -/
def unflushed (n : Nat) : Write → Nat
  | .put _ => n + 1
  | .block text => n + text.length
  | .flush => 0

/-- Between two flushes there are never more characters than the buffer has room for. -/
def Fits : Nat → List Write → Prop
  | _, [] => True
  | n, w :: ws => w.unflushed n ≤ kBufSize ∧ Fits (w.unflushed n) ws

end Write

namespace SocketStreamBuffer

/-- `n` characters are in the buffer, and with them the whole `text` was written. -/
structure Holds (n : Nat) (text : Str) (b : SocketStreamBuffer) : Prop where
  pptr : b.pptr = n
  epptr : b.epptr = kBufSize
  text : b.sent.flatten ++ b.block = text

theorem holds_empty : Holds 0 [] {} := ⟨rfl, rfl, rfl⟩

/-- **One character**: stored where there is room, and outside of the buffer where there is none. -/
theorem Holds.sputc {n : Nat} {text : Str} {b : SocketStreamBuffer} (hb : Holds n text b)
    (writeN : WriteN) (c : UInt8) :
    (n < kBufSize → ∃ b', b.sputc writeN c = some (some c, b') ∧ Holds (n + 1) (text ++ [c]) b') ∧
      (n ≥ kBufSize → b.sputc writeN c = none) := by
  have hpptr := hb.pptr
  have hepptr := hb.epptr
  constructor
  · intro hroom
    refine ⟨{ b with outBuf := Function.update b.outBuf b.pptr c, pptr := b.pptr + 1 }, ?_, ?_⟩
    · rw [SocketStreamBuffer.sputc, if_pos (by omega), store, if_pos (by omega), Option.map_some]
    · refine ⟨by show b.pptr + 1 = n + 1; omega, hepptr, ?_⟩
      have hkept : (List.range b.pptr).map (Function.update b.outBuf b.pptr c) = b.block := by
        refine List.map_congr_left fun i hi => ?_
        exact Function.update_of_ne (Nat.ne_of_lt (List.mem_range.mp hi)) c b.outBuf
      show b.sent.flatten ++ (List.range (b.pptr + 1)).map (Function.update b.outBuf b.pptr c) = _
      rw [List.range_succ, List.map_append, hkept, List.map_singleton, Function.update_self,
        ← List.append_assoc, hb.text]
  · intro hfull
    rw [SocketStreamBuffer.sputc, if_neg (by omega), overflow, Option.elim_some, store,
      if_neg (by omega), Option.map_none]

/-- **A block** is one character after another. -/
theorem Holds.xsputn {n : Nat} {text : Str} {b : SocketStreamBuffer} (hb : Holds n text b)
    (writeN : WriteN) (more : Str) :
    (n + more.length ≤ kBufSize → ∃ b', b.xsputn writeN more = some (true, b') ∧
        Holds (n + more.length) (text ++ more) b') ∧
      (n ≤ kBufSize → n + more.length > kBufSize → b.xsputn writeN more = none) := by
  induction more generalizing n text b with
  | nil =>
    constructor
    · intro hroom
      exact ⟨b, rfl, by rwa [List.append_nil]⟩
    · intro hle hfull
      exact absurd hfull (Nat.not_lt.mpr hle)
  | cons c more ih =>
    obtain ⟨hstored, houtside⟩ := hb.sputc writeN c
    have hlength : n + (c :: more).length = n + 1 + more.length := by
      rw [List.length_cons]
      omega
    rw [SocketStreamBuffer.xsputn, hlength]
    by_cases hroom : n < kBufSize
    · obtain ⟨b', hput, hb'⟩ := hstored hroom
      obtain ⟨hfits, hoverflows⟩ := ih hb'
      rw [hput, Option.bind_some]
      constructor
      · intro hle
        obtain ⟨b'', hmore, hb''⟩ := hfits hle
        exact ⟨b'', hmore, by rwa [List.append_assoc, List.singleton_append] at hb''⟩
      · intro hle hfull
        exact hoverflows hroom hfull
    · rw [houtside (Nat.le_of_not_lt hroom), Option.bind_none]
      constructor
      · intro hle
        omega
      · intro hle hfull
        rfl

/-- **A flush** hands everything over, if the socket takes it. -/
theorem Holds.sync {writeN : WriteN} (haccepts : ∀ sent block, writeN sent block = block.length)
    {n : Nat} {text : Str} {b : SocketStreamBuffer} (hb : Holds n text b) :
    ∃ b', b.sync writeN = (true, b') ∧ Holds 0 text b' := by
  by_cases hpos : b.pptr > 0
  · refine ⟨{ b with sent := b.sent ++ [b.block], pptr := 0, epptr := kBufSize }, ?_, rfl, rfl, ?_⟩
    · have hlength : b.block.length = b.pptr := by rw [block, List.length_map, List.length_range]
      rw [SocketStreamBuffer.sync, if_pos hpos]
      dsimp only
      rw [haccepts, hlength, if_neg (not_not.mpr rfl)]
    · show (b.sent ++ [b.block]).flatten ++ [] = text
      rw [List.append_nil, List.flatten_append, List.flatten_singleton, hb.text]
  · refine ⟨b, by rw [SocketStreamBuffer.sync, if_neg hpos], by omega, hb.epptr, hb.text⟩

end SocketStreamBuffer

namespace OStream

open SocketStreamBuffer

variable {writeN : WriteN}

/-- A stream in order. -/
def Holds (n : Nat) (text : Str) (s : OStream) : Prop := s.bad = false ∧ s.buf.Holds n text

theorem holds_new : Holds 0 [] {} := ⟨rfl, holds_empty⟩

/-- **The step lemma**: a write for which there is room. -/
theorem write_fits (haccepts : ∀ sent block, writeN sent block = block.length) {n : Nat} {text : Str}
    {s : OStream} (hs : s.Holds n text) {w : Write} (hroom : w.unflushed n ≤ kBufSize) :
    ∃ t, s.write writeN w = some t ∧ t.Holds (w.unflushed n) (text ++ w.chars) := by
  obtain ⟨hgood, hb⟩ := hs
  unfold write
  rw [hgood, if_neg Bool.false_ne_true]
  cases w with
  | put c =>
    obtain ⟨b, hput, hb'⟩ := (hb.sputc writeN c).1 hroom
    refine ⟨{ buf := b }, ?_, rfl, hb'⟩
    dsimp only
    rw [hput]
    rfl
  | block more =>
    obtain ⟨b, hall, hb'⟩ := (hb.xsputn writeN more).1 hroom
    refine ⟨{ buf := b }, ?_, rfl, hb'⟩
    dsimp only
    rw [hall]
    rfl
  | flush =>
    obtain ⟨b, hsync, hb'⟩ := hb.sync haccepts
    refine ⟨{ buf := b }, ?_, rfl, ?_⟩
    · dsimp only
      rw [hsync]
      rfl
    · rwa [Write.chars, List.append_nil]

/-- A write for which there is none. -/
theorem write_overflows {n : Nat} (hn : n ≤ kBufSize) {text : Str} {s : OStream}
    (hs : s.Holds n text) {w : Write} (hfull : w.unflushed n > kBufSize) :
    s.write writeN w = none := by
  obtain ⟨hgood, hb⟩ := hs
  unfold write
  rw [hgood, if_neg Bool.false_ne_true]
  cases w with
  | put c =>
    dsimp only
    rw [(hb.sputc writeN c).2 (Nat.le_of_lt_succ hfull), Option.map_none]
  | block more =>
    dsimp only
    rw [(hb.xsputn writeN more).2 hn hfull, Option.map_none]
  | flush => exact absurd hfull (Nat.not_lt_zero _)

/-! ## Runs -/

/-- **The run lemma**: writes that fit. -/
theorem exec_fits (haccepts : ∀ sent block, writeN sent block = block.length) {ws : List Write}
    {n : Nat} (hfits : Write.Fits n ws) {text : Str} {s : OStream} (hs : s.Holds n text) :
    ∃ t m, exec (write writeN) ws s = some t ∧ t.Holds m (text ++ ws.flatMap Write.chars) := by
  induction ws generalizing n text s with
  | nil => exact ⟨s, n, rfl, by rwa [List.flatMap_nil, List.append_nil]⟩
  | cons w ws ih =>
    obtain ⟨hroom, hrest⟩ := hfits
    obtain ⟨t, hwrite, ht⟩ := write_fits haccepts hs hroom
    obtain ⟨u, m, hrun, hu⟩ := ih hrest ht
    refine ⟨u, m, exec_cons_eq_some.mpr ⟨t, hwrite, hrun⟩, ?_⟩
    rwa [List.flatMap_cons, ← List.append_assoc]

/-- A run without a store outside of the buffer. -/
theorem fits_of_exec (haccepts : ∀ sent block, writeN sent block = block.length) {ws : List Write}
    {n : Nat} (hn : n ≤ kBufSize) {text : Str} {s t : OStream} (hs : s.Holds n text)
    (hrun : exec (write writeN) ws s = some t) : Write.Fits n ws := by
  induction ws generalizing n text s with
  | nil => trivial
  | cons w ws ih =>
    obtain ⟨u, hwrite, hrest⟩ := exec_cons_eq_some.mp hrun
    by_cases hroom : w.unflushed n ≤ kBufSize
    · obtain ⟨u', hwrite', hu'⟩ := write_fits haccepts hs hroom
      obtain rfl : u = u' := Option.some.inj (hwrite.symm.trans hwrite')
      exact ⟨hroom, ih hroom hu' hrest⟩
    · rw [write_overflows hn hs (Nat.lt_of_not_le hroom)] at hwrite
      cases hwrite

/-- Every character is stored inside of the buffer, and after every flush the blocks handed over are
    what was written. -/
def Delivered (writeN : WriteN) (ws : List Write) : Prop :=
  (∃ t, exec (write writeN) ws {} = some t) ∧
    ∀ pre post, ws = pre ++ .flush :: post →
      ∃ t, exec (write writeN) (pre ++ [.flush]) {} = some t ∧
        t.buf.sent.flatten = pre.flatMap Write.chars

theorem fits_append {pre post : List Write} {n : Nat} (h : Write.Fits n (pre ++ post)) :
    Write.Fits n pre := by
  induction pre generalizing n with
  | nil => trivial
  | cons w pre ih => exact ⟨h.1, ih h.2⟩

/-- **When everything is delivered**: as long as no more than `kBufSize` characters are written
    without a flush. -/
theorem delivered_iff_fits (haccepts : ∀ sent block, writeN sent block = block.length)
    (ws : List Write) : Delivered writeN ws ↔ Write.Fits 0 ws := by
  constructor
  · rintro ⟨⟨t, hrun⟩, -⟩
    exact fits_of_exec haccepts (Nat.zero_le _) holds_new hrun
  · intro hfits
    constructor
    · obtain ⟨t, -, hrun, -⟩ := exec_fits haccepts hfits holds_new
      exact ⟨t, hrun⟩
    · rintro pre post rfl
      obtain ⟨t, m, hrun, ht⟩ := exec_fits haccepts (fits_append hfits) holds_new
      obtain ⟨u, hflush, hu⟩ := write_fits haccepts ht
        (show Write.flush.unflushed m ≤ kBufSize from Nat.zero_le _)
      refine ⟨u, exec_append_eq_some.mpr ⟨t, hrun, exec_cons_eq_some.mpr ⟨u, hflush, rfl⟩⟩, ?_⟩
      have htext := hu.2.text
      have hempty : u.buf.block = [] := by
        rw [block, show u.buf.pptr = 0 from hu.2.pptr]
        rfl
      rw [hempty, List.append_nil] at htext
      rw [htext]
      show [] ++ pre.flatMap Write.chars ++ [] = _
      rw [List.append_nil, List.nil_append]

/-- **One character too many**: 4097 characters at once do not fit. -/
theorem not_delivered : ¬ Delivered (fun _ block => block.length) [.block (List.replicate 4097 0)] := by
  rintro ⟨⟨t, hrun⟩, -⟩
  have hfits := fits_of_exec (fun _ _ => rfl) (Nat.zero_le _) holds_new hrun
  have hroom : 0 + (List.replicate 4097 (0 : UInt8)).length ≤ kBufSize := hfits.1
  rw [List.length_replicate] at hroom
  exact absurd hroom (by decide)

/-- A reply and a flush. -/
theorem delivered_reply :
    Delivered (fun _ block => block.length) [.block (str "Content-Length: 2"), .put 10, .flush] :=
  (delivered_iff_fits (fun _ _ => rfl) _).mpr
    ⟨by decide, by decide, by decide, trivial⟩

end OStream

end Udap.Dap
