/-
  THE INPUT BUFFER between the socket and the session: `socket_stream_buffer::underflow`.

  A session reads lines and payloads from a stream on this buffer.  The network delivers the bytes
  in pieces of any size, and the buffer asks the socket for the next piece whenever it has been read
  to its end, in the middle of a header line or of a payload.

  1. **Program** — the get area (`GetArea`) with `underflow`, and `std::getline` and
     `std::istream::read` character by character over it.

  2. **View** — what a stream on a socket still has to deliver, as an `IStream`: what is left in the
     buffer, and the pieces to come (`unread`).  Both readings do to the view what they do to a
     stream of all the bytes at once (`view_getline`, `view_read`).

  3. **Runs** — so the reader of messages and the session on a socket are those on the view
     (`view_readMessage`, `runOn_eq`): how the network splits the input makes no difference.
-/
import Udap.Dap.Session
import Udap.Dap.SocketStream

set_option linter.unusedVariables false

namespace Udap.Dap

open Udap.Cxx Udap.Framing

/-! ## Program -/

/-- What `socket_.read(in_buf_, kBufSize)` delivers; without bytes it has returned 0 or less. -/
structure Piece where
  bytes : Str
  fits : bytes.length ≤ kBufSize

/-- The get area of `socket_stream_buffer`, with the pieces that the socket is going to deliver.
    `gptr` and `egptr` are indices of `in_buf_`. -/
structure GetArea where
  inBuf : Nat → UInt8 := fun _ => 0
  gptr : Nat := 0
  egptr : Nat := 0
  inside : gptr ≤ egptr ∧ egptr ≤ kBufSize := by decide
  socket : List Piece

namespace GetArea

/-- What stands between `gptr` and `egptr`. -/
def avail (b : GetArea) : Str := (List.range (b.egptr - b.gptr)).map fun i => b.inBuf (b.gptr + i)

/-- `setg` behind a read that has stored a piece at the front of `in_buf_`. -/
def filled (b : GetArea) (p : Piece) (socket : List Piece) : GetArea where
  inBuf i := p.bytes.getD i (b.inBuf i)
  gptr := 0
  egptr := p.bytes.length
  inside := ⟨Nat.zero_le _, p.fits⟩
  socket := socket

/-- `underflow`: the character at `gptr`, which stays there; none stands for `eof`. -/
def underflow (b : GetArea) : Option UInt8 × GetArea :=
  if b.gptr < b.egptr then (some (b.inBuf b.gptr), b)
  else
    match b.socket with
    | [] => (none, b)
    | p :: socket =>
      -- `n <= 0`
      if p.bytes = [] then (none, { b with socket := socket })
      else (some ((b.filled p socket).inBuf 0), b.filled p socket)

/-- `sbumpc`: take the next character, by way of `underflow` where the area is used up. -/
def sbumpc (b : GetArea) : Option UInt8 × GetArea :=
  let (c, b) := b.underflow
  (c, if h : b.gptr < b.egptr then { b with gptr := b.gptr + 1, inside := ⟨h, b.inside.2⟩ } else b)

/-- What the socket delivers, up to the first read without bytes. -/
def incoming : List Piece → Str
  | [] => []
  | p :: ps => if p.bytes = [] then [] else p.bytes ++ incoming ps

/-- All that is still to be read. -/
def unread (b : GetArea) : Str := b.avail ++ incoming b.socket

/-! ## One character -/

theorem avail_of_lt {b : GetArea} (h : b.gptr < b.egptr) :
    b.avail = b.inBuf b.gptr ::
      GetArea.avail { b with gptr := b.gptr + 1, inside := ⟨h, b.inside.2⟩ } := by
  unfold avail
  rw [show b.egptr - b.gptr = b.egptr - (b.gptr + 1) + 1 by omega, List.range_succ_eq_map,
    List.map_cons, List.map_map]
  refine List.cons_eq_cons.mpr ⟨rfl, List.map_congr_left fun i _ => ?_⟩
  show b.inBuf (b.gptr + (i + 1)) = b.inBuf (b.gptr + 1 + i)
  rw [Nat.add_right_comm, Nat.add_assoc]

theorem avail_of_not_lt {b : GetArea} (h : ¬ b.gptr < b.egptr) : b.avail = [] := by
  rw [avail, Nat.sub_eq_zero_of_le (Nat.le_of_not_lt h)]
  rfl

/-- A piece that was stored is what the area has. -/
theorem avail_filled (b : GetArea) (p : Piece) (socket : List Piece) :
    (b.filled p socket).avail = p.bytes := by
  apply List.ext_getElem
  · rw [avail, List.length_map, List.length_range]
    rfl
  · intro i hi hi'
    rw [avail] at hi
    simp only [avail, List.getElem_map, List.getElem_range]
    show p.bytes.getD (0 + i) _ = p.bytes[i]
    rw [Nat.zero_add, List.getD_eq_getElem?_getD, List.getElem?_eq_getElem hi', Option.getD_some]

/-- **One character** of what is unread, or the end of it. -/
theorem sbumpc_unread (b : GetArea) :
    (∃ c b', b.sbumpc = (some c, b') ∧ b.unread = c :: b'.unread) ∨
      (∃ b', b.sbumpc = (none, b') ∧ b.unread = []) := by
  by_cases hlt : b.gptr < b.egptr
  · refine Or.inl ⟨b.inBuf b.gptr,
      { b with gptr := b.gptr + 1, inside := ⟨hlt, b.inside.2⟩ }, ?_, ?_⟩
    · rw [sbumpc, underflow, if_pos hlt]
      dsimp only
      rw [dif_pos hlt]
    · rw [unread, avail_of_lt hlt]
      rfl
  · have hempty := avail_of_not_lt hlt
    cases hsocket : b.socket with
    | nil =>
      refine Or.inr ⟨b, ?_, ?_⟩
      · rw [sbumpc, underflow, if_neg hlt, hsocket]
        dsimp only
        rw [dif_neg hlt]
      · rw [unread, hempty, hsocket]
        rfl
    | cons p socket =>
      by_cases hnone : p.bytes = []
      · refine Or.inr ⟨{ b with socket := socket }, ?_, ?_⟩
        · rw [sbumpc, underflow, if_neg hlt, hsocket]
          dsimp only
          rw [if_pos hnone, dif_neg hlt]
        · rw [unread, hempty, hsocket, incoming, if_pos hnone]
          rfl
      · -- the piece is stored, and its first character is taken
        have hpos : (b.filled p socket).gptr < (b.filled p socket).egptr :=
          List.length_pos_iff.mpr hnone
        refine Or.inl ⟨(b.filled p socket).inBuf 0,
          { b.filled p socket with
            gptr := (b.filled p socket).gptr + 1, inside := ⟨hpos, (b.filled p socket).inside.2⟩ },
          ?_, ?_⟩
        · rw [sbumpc, underflow, if_neg hlt, hsocket]
          dsimp only
          rw [if_neg hnone]
          dsimp only
          rw [dif_pos hpos]
        · have hfilled := avail_of_lt hpos
          rw [avail_filled] at hfilled
          rw [unread, hempty, hsocket, incoming, if_neg hnone, List.nil_append, hfilled]
          rfl

theorem unread_sbumpc_lt {b b' : GetArea} {c : UInt8} (h : b.sbumpc = (some c, b')) :
    b'.unread.length < b.unread.length := by
  rcases b.sbumpc_unread with ⟨d, u, hu, hcons⟩ | ⟨u, hu, -⟩
  · obtain ⟨-, rfl⟩ := Prod.mk.inj (h.symm.trans hu)
    rw [hcons, List.length_cons]
    exact Nat.lt_succ_self _
  · exact absurd (Prod.mk.inj (h.symm.trans hu)).1 (Option.some_ne_none c)

/-! ## The readings -/

/-- The loop of `std::getline`: the characters up to an LF, which is taken, too; was there one? -/
def getChars (b : GetArea) : Str × Bool × GetArea :=
  match h : b.sbumpc with
  | (none, b') => ([], false, b')
  | (some c, b') =>
    if c = 10 then ([], true, b')
    else
      let (line, found, b'') := getChars b'
      (c :: line, found, b'')
termination_by b.unread.length
decreasing_by exact unread_sbumpc_lt h

/-- `sgetn`: up to `n` characters. -/
def sgetn : Nat → GetArea → Str × GetArea
  | 0, b => ([], b)
  | n + 1, b =>
    match b.sbumpc with
    | (none, b) => ([], b)
    | (some c, b) =>
      let (text, b) := sgetn n b
      (c :: text, b)

/-- **A line** of what is unread. -/
theorem getChars_unread (b : GetArea) :
    (∀ line rest, IStream.splitLine b.unread = some (line, rest) →
      ∃ b', b.getChars = (line, true, b') ∧ b'.unread = rest) ∧
    (IStream.splitLine b.unread = none → ∃ b', b.getChars = (b.unread, false, b')) := by
  induction b using getChars.induct with
  | case1 b b' h =>
    rcases b.sbumpc_unread with ⟨c, u, hu, -⟩ | ⟨u, hu, hnil⟩
    · exact absurd (Prod.mk.inj (h.symm.trans hu)).1.symm (Option.some_ne_none c)
    · rw [hnil]
      constructor
      · intro line rest hsplit
        cases hsplit
      · intro _
        refine ⟨b', ?_⟩
        rw [getChars, h]
  | case2 b b' h =>
    rcases b.sbumpc_unread with ⟨c, u, hu, hcons⟩ | ⟨u, hu, -⟩
    · obtain ⟨hc, rfl⟩ := Prod.mk.inj (h.symm.trans hu)
      obtain rfl := Option.some.inj hc
      rw [hcons]
      constructor
      · intro line rest hsplit
        obtain ⟨rfl, rfl⟩ := Prod.mk.inj (Option.some.inj hsplit)
        refine ⟨b', ?_, rfl⟩
        rw [getChars, h]
        rfl
      · intro hsplit
        cases hsplit
    · exact absurd (Prod.mk.inj (h.symm.trans hu)).1 (Option.some_ne_none _)
  | case3 b c b' h hc line found b'' hloop ih =>
    rcases b.sbumpc_unread with ⟨d, u, hu, hcons⟩ | ⟨u, hu, -⟩
    · obtain ⟨hd, rfl⟩ := Prod.mk.inj (h.symm.trans hu)
      obtain rfl := Option.some.inj hd
      obtain ⟨ihfound, ihnone⟩ := ih
      have hget : b.getChars = (c :: b'.getChars.1, b'.getChars.2.1, b'.getChars.2.2) := by
        rw [getChars, h]
        dsimp only
        rw [if_neg hc]
      have hsplit : IStream.splitLine (c :: b'.unread)
          = (IStream.splitLine b'.unread).map fun p => (c :: p.1, p.2) := by
        rw [IStream.splitLine]
        exact fun heq => hc heq
      rw [hcons, hsplit, hget]
      constructor
      · intro line rest hline
        obtain ⟨⟨l, r⟩, hl, heq⟩ := Option.map_eq_some_iff.mp hline
        obtain ⟨rfl, rfl⟩ := Prod.mk.inj heq
        obtain ⟨u, hu, hrest⟩ := ihfound l r hl
        rw [hu]
        exact ⟨u, rfl, hrest⟩
      · intro hnone
        obtain ⟨u, hu⟩ := ihnone (Option.map_eq_none_iff.mp hnone)
        rw [hu]
        exact ⟨u, rfl⟩
    · exact absurd (Prod.mk.inj (h.symm.trans hu)).1 (Option.some_ne_none _)

/-- **A number of characters** of what is unread. -/
theorem sgetn_unread (n : Nat) (b : GetArea) :
    (b.sgetn n).1 = b.unread.take n ∧
      (n ≤ b.unread.length → (b.sgetn n).2.unread = b.unread.drop n) := by
  induction n generalizing b with
  | zero => exact ⟨rfl, fun _ => rfl⟩
  | succ n ih =>
    rcases b.sbumpc_unread with ⟨c, u, hu, hcons⟩ | ⟨u, hu, hnil⟩
    · obtain ⟨htext, hrest⟩ := ih u
      have hget : b.sgetn (n + 1) = (c :: (u.sgetn n).1, (u.sgetn n).2) := by
        rw [sgetn, hu]
      rw [hget, hcons, List.take_succ_cons, List.drop_succ_cons, htext]
      refine ⟨rfl, fun hle => hrest ?_⟩
      rw [List.length_cons] at hle
      omega
    · rw [hnil, sgetn, hu]
      exact ⟨rfl, fun hle => absurd hle (Nat.not_succ_le_zero n)⟩

end GetArea

/-- A `std::istream` on such a buffer. -/
structure SocketIStream where
  buf : GetArea
  eof : Bool := false
  fail : Bool := false

namespace SocketIStream

/-- A stream on a fresh buffer. -/
def onSocket (socket : List Piece) : SocketIStream where
  buf := { socket := socket }

/-- `std::getline(in, line)`. -/
def getline (s : SocketIStream) : Str × SocketIStream :=
  if !s.eof && !s.fail then
    let (line, found, buf) := s.buf.getChars
    if found then (line, { s with buf := buf })
    else (line, { buf := buf, eof := true, fail := line.isEmpty })
  else ([], { s with fail := true })

/-- `in.read(p, n)`. -/
def read (s : SocketIStream) (n : Nat) : Str × SocketIStream :=
  if !s.eof && !s.fail then
    let (text, buf) := s.buf.sgetn n
    if text.length = n then (text, { s with buf := buf })
    else (text, { buf := buf, eof := true, fail := true })
  else ([], { s with fail := true })

/-! ## View -/

/-- The stream of all the bytes that are still to be read; behind its end it has none. -/
def view (s : SocketIStream) : IStream where
  rest := if s.eof then [] else s.buf.unread
  eof := s.eof
  fail := s.fail

theorem view_onSocket (socket : List Piece) :
    (onSocket socket).view = { rest := GetArea.incoming socket } := rfl

/-- **`getline` on a socket.** -/
theorem view_getline (s : SocketIStream) :
    s.view.getline = (s.getline.1, s.getline.2.view) := by
  obtain ⟨b, eof, fail⟩ := s
  cases eof with
  | true => rfl
  | false =>
    cases fail with
    | true => rfl
    | false =>
      obtain ⟨hfound, hnone⟩ := b.getChars_unread
      have hget : getline ⟨b, false, false⟩ =
          if b.getChars.2.1 then (b.getChars.1, ⟨b.getChars.2.2, false, false⟩)
          else (b.getChars.1, ⟨b.getChars.2.2, true, b.getChars.1.isEmpty⟩) := rfl
      have hunread : (view ⟨b, false, false⟩).rest = b.unread := rfl
      have hgood : (view ⟨b, false, false⟩).good = true := rfl
      rw [hget, IStream.getline, if_pos hgood, hunread]
      cases hsplit : IStream.splitLine b.unread with
      | none =>
        obtain ⟨u, hu⟩ := hnone hsplit
        rw [hu]
        rfl
      | some p =>
        obtain ⟨line, rest⟩ := p
        obtain ⟨u, hu, hrest⟩ := hfound line rest hsplit
        rw [hu, ← hrest]
        rfl

/-- **`read` on a socket.** -/
theorem view_read (s : SocketIStream) (n : Nat) :
    s.view.read n = ((s.read n).1, (s.read n).2.view) := by
  obtain ⟨b, eof, fail⟩ := s
  cases eof with
  | true => rfl
  | false =>
    cases fail with
    | true => rfl
    | false =>
      obtain ⟨htext, hrest⟩ := b.sgetn_unread n
      show (if n ≤ b.unread.length then (b.unread.take n, { rest := b.unread.drop n })
          else (b.unread, { rest := [], eof := true, fail := true }))
        = ((read ⟨b, false, false⟩ n).1, (read ⟨b, false, false⟩ n).2.view)
      have hread : read ⟨b, false, false⟩ n
          = if (b.sgetn n).1.length = n then ((b.sgetn n).1, ⟨(b.sgetn n).2, false, false⟩)
            else ((b.sgetn n).1, ⟨(b.sgetn n).2, true, true⟩) := rfl
      rw [hread, htext, List.length_take]
      by_cases hle : n ≤ b.unread.length
      · rw [if_pos hle, if_pos (Nat.min_eq_left hle), ← hrest hle]
        rfl
      · rw [if_neg hle, if_neg (by omega), List.take_of_length_le (by omega)]
        rfl

/-! ## The reader of messages -/

/-- The header loop of `read_message`. -/
def readHeaders (s : SocketIStream) (n : Int) : Int × SocketIStream :=
  if h : s.getline.2.fail = false then
    if (chomp s.getline.1).isEmpty then (n, s.getline.2)
    else readHeaders s.getline.2 (headerValue (chomp s.getline.1) n)
  else (n, s.getline.2)
termination_by s.view.size
decreasing_by
  have hview : s.view.getline.2 = s.getline.2.view := congrArg Prod.snd s.view_getline
  rw [← hview]
  exact IStream.size_getline ((congrArg IStream.fail hview).trans h)

/-- `session::read_message`. -/
def readMessage (s : SocketIStream) : Str × SocketIStream :=
  let (n, s) := s.readHeaders (-1)
  if s.fail then ([], s)
  else if n < 0 then ([], s)
  else
    let (payload, s) := s.read n.toNat
    if (payload.length : Int) ≠ n then ([], s) else (payload, s)

theorem view_readHeaders (s : SocketIStream) (n : Int) :
    Framing.readHeaders s.view n = ((s.readHeaders n).1, (s.readHeaders n).2.view) := by
  induction s, n using SocketIStream.readHeaders.induct with
  | case1 s n h hblank =>
    have hfail : s.view.getline.2.fail = false := by
      rw [s.view_getline]
      exact h
    have hline : (chomp s.view.getline.1).isEmpty = true := by
      rw [s.view_getline]
      exact hblank
    rw [readHeaders, dif_pos h, if_pos hblank, Framing.readHeaders, dif_pos hfail, if_pos hline,
      s.view_getline]
  | case2 s n h hblank ih =>
    have hfail : s.view.getline.2.fail = false := by
      rw [s.view_getline]
      exact h
    have hline : ¬ (chomp s.view.getline.1).isEmpty = true := by
      rw [s.view_getline]
      exact hblank
    rw [readHeaders, dif_pos h, if_neg hblank, Framing.readHeaders, dif_pos hfail, if_neg hline,
      s.view_getline, ih]
  | case3 s n h =>
    have hfail : ¬ s.view.getline.2.fail = false := by
      rw [s.view_getline]
      exact h
    rw [readHeaders, dif_neg h, Framing.readHeaders, dif_neg hfail, s.view_getline]

/-- **A message** is read from a socket as from the bytes it delivers. -/
theorem view_readMessage (s : SocketIStream) :
    Framing.readMessage s.view = (s.readMessage.1, s.readMessage.2.view) := by
  have hheaders := s.view_readHeaders (-1)
  rw [Framing.readMessage, readMessage, hheaders]
  generalize s.readHeaders (-1) = r
  obtain ⟨n, t⟩ := r
  dsimp only
  rw [show t.view.fail = t.fail from rfl, t.view_read]
  split
  · rfl
  · split
    · rfl
    · split
      · rfl
      · rfl

theorem readMessage_size {s : SocketIStream} (h : s.readMessage.1 ≠ []) :
    s.readMessage.2.view.size < s.view.size := by
  have hview := s.view_readMessage
  have hsize := Framing.readMessage_size (s := s.view) (by rwa [hview])
  rwa [hview] at hsize

end SocketIStream

/-! ## The session on a socket -/

section
variable {S : Type} (F : Type) [FloatCast F] [JsonText F] (T : Target S) (disk : Disk)

/-- `session::run` on the stream of a socket. -/
def runOn (input : SocketIStream) (s : Session S) : Option (Session S) :=
  if h : input.readMessage.1 = [] then some s
  else (takeMessage F T disk input.readMessage.1 s).bind (runOn input.readMessage.2)
termination_by input.view.size
decreasing_by exact SocketIStream.readMessage_size h

theorem runOn_eq (input : SocketIStream) (s : Session S) :
    runOn F T disk input s = run F T disk input.view s := by
  induction input, s using runOn.induct with
  | case1 input s h =>
    have hview : (readMessage input.view).1 = [] := by rw [input.view_readMessage, h]
    rw [runOn, dif_pos h, run, dif_pos hview]
  | case2 input s h ih =>
    have hview : (readMessage input.view).1 ≠ [] := by
      rw [input.view_readMessage]
      exact h
    rw [runOn, dif_neg h, run, dif_neg hview, input.view_readMessage]
    exact Option.bind_congr fun t _ => ih t

/-- **However the network splits the input**, in header lines or payloads, at an LF or inside of a
    CRLF: the session on the socket is the one on all the bytes that arrive before the first read
    without any. -/
theorem run_on_socket (socket : List Piece) (s : Session S) :
    runOn F T disk (SocketIStream.onSocket socket) s
      = run F T disk { rest := GetArea.incoming socket } s := runOn_eq F T disk _ s

end

end Udap.Dap
