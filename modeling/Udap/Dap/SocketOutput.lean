/-
  THE OUTPUT OF TWO THREADS through one buffer to a socket that may fail.

  `send_message` (the main thread) and `send_event_direct` (the emulation thread) insert four texts
  into `out` and flush it, all under `output_mutex_`.  The texts are collected in the `out_buf_` of
  `socket_stream_buffer`, and `sync` hands them to `write_n`, which may take them only in part; then
  the stream is bad and takes nothing any more.

  1. **Program** — the two threads with their calls around the stream (`Channel`), as an object
     behind a mutex.

  2. **One call after another** — a stream behind some messages (`Flushed`): the socket was given a
     block for each of them, up to the first that it did not take whole (`taken`).  A message that
     fits into the buffer leads from one such stream to the next (`send`).

  3. **Reading** — what arrives of these blocks (`Arrives`) is read as the messages that were taken
     whole; the part of a message that arrives of the last one is read as nothing
     (`readMessage_part`).

  4. **Runs** — `whole_messages_arrive`: in every interleaving, whatever the socket does.
-/
import Udap.Dap.Framing
import Udap.Dap.SocketStream
import Udap.Lib.Mutex

set_option linter.unusedVariables false

namespace Udap.Dap

open Udap.Cxx Udap.Framing Udap.Run Udap.Mutex SocketStreamBuffer

/-! ## Program -/

/-- What `send_message` and `send_event_direct` do to `out`. -/
def sendWrites (payload : Str) : List Write :=
  [.block (str "Content-Length: "), .block (decimal payload.length), .block (str "\r\n\r\n"),
    .block payload, .flush]

/-- One write; no stream is left where a character was stored outside of `out_buf_`. -/
def writeTo (writeN : WriteN) (w : Write) (o : Option OStream) : Option OStream :=
  o.bind (OStream.write writeN w)

/-- The two threads around `out`. -/
abbrev Channel := Guarded Writer Str Write (Option OStream)

def channelStep (writeN : WriteN) : Mutex.Act Writer → Channel → Option Channel :=
  Mutex.step sendWrites (writeTo writeN)

/-- The stream of a new connection, and the messages that each thread is going to send. -/
def channelStart (calls : Writer → List Str) : Channel := Mutex.start (some {}) calls

/-! ## One call after another -/

section
variable (writeN : WriteN)

/-- How many of some blocks are taken whole before one is not; `before` was handed over before. -/
def taken : List Str → List Str → Nat
  | _, [] => 0
  | before, b :: bs => if writeN before b = b.length then taken (before ++ [b]) bs + 1 else 0

theorem taken_le (before blocks : List Str) : taken writeN before blocks ≤ blocks.length := by
  induction blocks generalizing before with
  | nil => exact Nat.le_refl 0
  | cons b bs ih =>
    rw [taken, List.length_cons]
    split
    · exact Nat.succ_le_succ (ih _)
    · exact Nat.zero_le _

/-- One block more. -/
theorem taken_concat (before blocks : List Str) (b : Str) :
    taken writeN before (blocks ++ [b])
      = if taken writeN before blocks = blocks.length ∧ writeN (before ++ blocks) b = b.length
        then blocks.length + 1 else taken writeN before blocks := by
  induction blocks generalizing before with
  | nil =>
    rw [List.nil_append, List.append_nil, taken, taken, taken]
    simp only [List.length_nil, true_and, Nat.zero_add]
  | cons c cs ih =>
    rw [List.cons_append, taken, taken, ih, List.append_assoc, List.singleton_append,
      List.length_cons]
    by_cases hc : writeN before c = c.length
    · rw [if_pos hc, if_pos hc]
      by_cases hall : taken writeN (before ++ [c]) cs = cs.length ∧
          writeN (before ++ c :: cs) b = b.length
      · rw [if_pos hall, if_pos ⟨by rw [hall.1], hall.2⟩]
      · rw [if_neg hall, if_neg fun h => hall ⟨Nat.succ.inj h.1, h.2⟩]
    · rw [if_neg hc, if_neg hc, if_neg fun h => Nat.succ_ne_zero _ h.1.symm]

/-- The blocks behind the first that is not taken whole make no difference. -/
theorem taken_take (before blocks : List Str) :
    taken writeN before (blocks.take (taken writeN before blocks + 1))
      = taken writeN before blocks := by
  induction blocks generalizing before with
  | nil => rfl
  | cons b bs ih =>
    rw [List.take_succ_cons]
    by_cases hb : writeN before b = b.length
    · rw [taken, if_pos hb, taken, if_pos hb, ih]
    · rw [taken, if_neg hb, taken, if_neg hb]

/-- A stream behind the messages `ms`. -/
structure Flushed (ms : List Str) (s : OStream) : Prop where
  sent : s.buf.sent = (ms.map frame).take (taken writeN [] (ms.map frame) + 1)
  bad_iff : s.bad = false ↔ taken writeN [] (ms.map frame) = ms.length
  empty : s.bad = false → s.buf.pptr = 0 ∧ s.buf.epptr = kBufSize

theorem new_flushed : Flushed writeN [] {} :=
  ⟨rfl, Iff.intro (fun _ => rfl) fun _ => rfl, fun _ => ⟨rfl, rfl⟩⟩

variable {writeN}

/-- Text for which there is room stays in the buffer. -/
theorem xsputn_sent {n : Nat} {text more : Str} {b b' : SocketStreamBuffer} {all : Bool}
    (hb : Holds n text b) (hroom : n + more.length ≤ kBufSize)
    (h : b.xsputn writeN more = some (all, b')) : b'.sent = b.sent := by
  induction more generalizing n text b with
  | nil =>
    obtain ⟨-, rfl⟩ := Prod.mk.inj (Option.some.inj h)
    rfl
  | cons c more ih =>
    rw [List.length_cons] at hroom
    have hpptr := hb.pptr
    have hepptr := hb.epptr
    obtain ⟨u, hput, hu⟩ := (hb.sputc writeN c).1 (by omega)
    have hsent : u.sent = b.sent := by
      rw [SocketStreamBuffer.sputc, if_pos (by omega), store, if_pos (by omega), Option.map_some]
        at hput
      rw [← (Prod.mk.inj (Option.some.inj hput)).2]
    rw [xsputn, hput, Option.bind_some] at h
    rw [ih hu (by omega) h, hsent]

/-- An inserted text for which there is room. -/
theorem write_block {n : Nat} {text more : Str} {s : OStream} (hs : s.Holds n text)
    (hroom : n + more.length ≤ kBufSize) :
    ∃ t, s.write writeN (.block more) = some t ∧ t.Holds (n + more.length) (text ++ more) ∧
      t.buf.sent = s.buf.sent := by
  obtain ⟨hgood, hb⟩ := hs
  obtain ⟨b, hall, hb'⟩ := (hb.xsputn writeN more).1 hroom
  refine ⟨{ buf := b }, ?_, ⟨rfl, hb'⟩, xsputn_sent hb hroom hall⟩
  rw [OStream.write, hgood, if_neg Bool.false_ne_true, hall]
  rfl

/-- Texts for which there is room. -/
theorem exec_blocks {texts : List Str} {n : Nat} {text : Str} {s : OStream} (hs : s.Holds n text)
    (hroom : n + texts.flatten.length ≤ kBufSize) :
    ∃ t, exec (OStream.write writeN) (texts.map .block) s = some t ∧
      t.Holds (n + texts.flatten.length) (text ++ texts.flatten) ∧ t.buf.sent = s.buf.sent := by
  induction texts generalizing n text s with
  | nil => exact ⟨s, rfl, by rwa [List.flatten_nil, List.append_nil], rfl⟩
  | cons more texts ih =>
    rw [List.flatten_cons, List.length_append, ← Nat.add_assoc] at hroom
    obtain ⟨t, hwrite, ht, hsent⟩ := write_block hs (Nat.le_of_add_right_le hroom)
    obtain ⟨u, hrest, hu, husent⟩ := ih ht hroom
    refine ⟨u, exec_cons_eq_some.mpr ⟨t, hwrite, hrest⟩, ?_, husent.trans hsent⟩
    rwa [List.flatten_cons, List.length_append, ← Nat.add_assoc, ← List.append_assoc]

/-- A bad stream stays as it is. -/
theorem exec_bad {s : OStream} (hbad : s.bad = true) (ws : List Write) :
    exec (OStream.write writeN) ws s = some s := by
  induction ws with
  | nil => rfl
  | cons w ws ih =>
    have hkept : s.write writeN w = some s := by
      unfold OStream.write
      rw [if_pos hbad]
    rw [exec_cons, hkept, Option.bind_some, ih]

/-- The texts of a message. -/
def textsOf (payload : Str) : List Str :=
  [str "Content-Length: ", decimal payload.length, str "\r\n\r\n", payload]

theorem sendWrites_eq (payload : Str) :
    sendWrites payload = (textsOf payload).map .block ++ [.flush] := rfl

theorem frame_eq (payload : Str) : frame payload = (textsOf payload).flatten := by
  simp only [frame, textsOf, List.flatten_cons, List.flatten_nil, List.append_nil, List.append_assoc]

theorem frame_length_pos (payload : Str) : (frame payload).length > 0 := by
  have hname : (str "Content-Length: ").length = 16 := by decide
  rw [frame, List.length_append, List.length_append, List.length_append]
  omega

namespace Flushed

/-- A good stream has given the socket everything. -/
theorem sent_of_good {ms : List Str} {s : OStream} (hs : Flushed writeN ms s)
    (hgood : s.bad = false) : s.buf.sent = ms.map frame := by
  rw [hs.sent, hs.bad_iff.mp hgood, List.take_of_length_le]
  rw [List.length_map]
  exact Nat.le_succ _

/-- A bad stream takes no message. -/
theorem concat_of_bad {ms : List Str} {s : OStream} (hs : Flushed writeN ms s)
    (hbad : s.bad = true) (m : Str) : Flushed writeN (ms ++ [m]) s := by
  have hshort : taken writeN [] (ms.map frame) < ms.length := by
    have hle := taken_le writeN [] (ms.map frame)
    rw [List.length_map] at hle
    refine Nat.lt_of_le_of_ne hle fun heq => ?_
    rw [hs.bad_iff.mpr heq] at hbad
    cases hbad
  have hconcat : taken writeN [] ((ms ++ [m]).map frame) = taken writeN [] (ms.map frame) := by
    rw [List.map_append, List.map_singleton, taken_concat, List.length_map,
      if_neg fun h => absurd h.1 (Nat.ne_of_lt hshort)]
  refine ⟨?_, ?_, hs.empty⟩
  · rw [hconcat, hs.sent, List.map_append, List.take_append_of_le_length]
    rw [List.length_map]
    exact hshort
  · rw [hconcat, List.length_append, List.length_singleton, hs.bad_iff]
    constructor
    · intro heq
      exact absurd heq (Nat.ne_of_lt hshort)
    · intro heq
      omega

/-- The texts of a message are collected behind one another. -/
theorem texts {ms : List Str} {s : OStream} (hs : Flushed writeN ms s) (hgood : s.bad = false)
    {m : Str} (hroom : (frame m).length ≤ kBufSize) :
    ∃ t, exec (OStream.write writeN) ((textsOf m).map .block) s = some t ∧ t.bad = false ∧
      t.buf.pptr = (frame m).length ∧ t.buf.sent = ms.map frame ∧ t.buf.block = frame m := by
  obtain ⟨hpptr, hepptr⟩ := hs.empty hgood
  have hsent := hs.sent_of_good hgood
  have hholds : s.Holds 0 (ms.map frame).flatten := by
    refine ⟨hgood, hpptr, hepptr, ?_⟩
    rw [hsent, SocketStreamBuffer.block, hpptr]
    exact List.append_nil _
  rw [frame_eq] at hroom
  obtain ⟨t, htexts, ht, htsent⟩ := exec_blocks hholds (by rw [Nat.zero_add]; exact hroom)
  rw [Nat.zero_add, ← frame_eq] at ht
  obtain ⟨htgood, htpptr, -, httext⟩ := ht
  rw [htsent, hsent] at httext
  exact ⟨t, htexts, htgood, htpptr, htsent.trans hsent, List.append_cancel_left httext⟩

/-- **A message** that fits into the buffer is sent, as far as the socket takes it. -/
theorem send {ms : List Str} {s : OStream} (hs : Flushed writeN ms s) {m : Str}
    (hroom : (frame m).length ≤ kBufSize) :
    ∃ t, exec (OStream.write writeN) (sendWrites m) s = some t ∧ Flushed writeN (ms ++ [m]) t := by
  cases hbad : s.bad with
  | true => exact ⟨s, exec_bad hbad _, hs.concat_of_bad hbad m⟩
  | false =>
    obtain ⟨t, htexts, htgood, htpptr, htsent, hblock⟩ := hs.texts hbad hroom
    -- the flush gives the whole frame to the socket
    have hrun : exec (OStream.write writeN) (sendWrites m) s = t.write writeN .flush := by
      rw [sendWrites_eq, exec_append, htexts, Option.bind_some, exec_cons]
      cases t.write writeN .flush <;> rfl
    have hsplit : (ms ++ [m]).map frame = ms.map frame ++ [frame m] := by
      rw [List.map_append, List.map_singleton]
    have hconcat := taken_concat writeN [] (ms.map frame) (frame m)
    rw [List.nil_append, List.length_map, ← hsplit] at hconcat
    rw [hrun, OStream.write, htgood, if_neg Bool.false_ne_true, SocketStreamBuffer.sync,
      if_pos (by rw [htpptr]; exact frame_length_pos m)]
    dsimp only
    rw [htsent, hblock, htpptr, ← hsplit]
    by_cases hwhole : writeN (ms.map frame) (frame m) = (frame m).length
    · rw [if_neg (not_not.mpr hwhole)]
      rw [if_pos ⟨hs.bad_iff.mp hbad, hwhole⟩] at hconcat
      refine ⟨_, rfl, ?_, ?_, fun _ => ⟨rfl, rfl⟩⟩
      · rw [hconcat, List.take_of_length_le]
        rw [List.length_map, List.length_append, List.length_singleton]
        exact Nat.le_succ _
      · rw [hconcat, List.length_append, List.length_singleton]
        exact Iff.intro (fun _ => rfl) fun _ => rfl
    · rw [if_pos hwhole]
      rw [if_neg fun h => hwhole h.2, hs.bad_iff.mp hbad] at hconcat
      refine ⟨_, rfl, ?_, ?_, fun hgood => ?_⟩
      · rw [hconcat, List.take_of_length_le]
        rw [List.length_map, List.length_append, List.length_singleton]
      · rw [hconcat, List.length_append, List.length_singleton]
        constructor
        · intro hgood
          cases hgood
        · intro heq
          omega
      · cases hgood

/-- **Messages**, one after another. -/
theorem sends {more ms : List Str} {s : OStream} (hs : Flushed writeN ms s)
    (hroom : ∀ m ∈ more, (frame m).length ≤ kBufSize) :
    ∃ t, exec (OStream.write writeN) (more.flatMap sendWrites) s = some t ∧
      Flushed writeN (ms ++ more) t := by
  induction more generalizing ms s with
  | nil => exact ⟨s, rfl, by rwa [List.append_nil]⟩
  | cons m more ih =>
    obtain ⟨t, hsend, ht⟩ := hs.send (hroom m List.mem_cons_self)
    obtain ⟨u, hrest, hu⟩ := ih ht fun x hx => hroom x (List.mem_cons_of_mem _ hx)
    refine ⟨u, ?_, ?_⟩
    · rw [List.flatMap_cons]
      exact exec_append_eq_some.mpr ⟨t, hsend, hrest⟩
    · rwa [List.append_assoc, List.singleton_append] at hu

end Flushed

/-! ## Reading -/

/-- What can arrive of some blocks: a block that was taken whole, and of one that was not, less than
    that; behind it nothing is handed over. -/
def Arrives (writeN : WriteN) : List Str → List Str → Str → Prop
  | _, [], bytes => bytes = []
  | before, b :: bs, bytes =>
    if writeN before b = b.length then
      ∃ rest, bytes = b ++ rest ∧ Arrives writeN (before ++ [b]) bs rest
    else ∃ lost, bytes ++ lost = b ∧ lost ≠ []

end

/-- **A part of a message** is read as nothing, wherever it is cut off. -/
theorem readMessage_part {payload part lost : Str} (hlength : payload.length < 2 ^ 31)
    (h : part ++ lost = frame payload) (hlost : lost ≠ []) :
    (readMessage { rest := part }).1 = [] := by
  have hlf : (10 : UInt8) ∉ str "Content-Length: " ++ decimal payload.length ++ [13] := by
    intro hmem
    rcases List.mem_append.mp hmem with hmem | hmem
    · rcases List.mem_append.mp hmem with hmem | hmem
      · exact absurd hmem (by decide)
      · exact absurd (decimal_digits _ 10 hmem) (by decide)
    · exact absurd hmem (by decide)
  have hframe : frame payload
      = (str "Content-Length: " ++ decimal payload.length ++ [13]) ++ 10 :: 13 :: 10 :: payload := by
    have hends : str "\r\n\r\n" = [13, 10, 13, 10] := by decide
    simp only [frame, hends, List.append_assoc, List.cons_append, List.nil_append]
  rw [hframe] at h
  rcases List.append_eq_append_iff.mp h with ⟨rest, hrest, -⟩ | ⟨behind, hpart, hbehind⟩
  · -- inside of the header line
    refine readMessage_of_headers (readHeaders_end (fun hmem => hlf ?_) _)
    rw [hrest]
    exact List.mem_append_left _ hmem
  · -- behind it
    cases behind with
    | nil =>
      rw [hpart, List.append_nil]
      exact readMessage_of_headers (readHeaders_end hlf _)
    | cons b behind =>
      rw [List.cons_append] at hbehind
      obtain ⟨rfl, hblankLine⟩ := List.cons_eq_cons.mp hbehind
      have hheaders : readHeaders { rest := part } (-1)
          = readHeaders { rest := behind } payload.length := by
        have hlengthLine : part = str "Content-Length: " ++ decimal payload.length
            ++ Eol.crlf.bytes ++ behind := by
          simp only [hpart, Eol.bytes, List.append_assoc, List.cons_append, List.nil_append]
        rw [hlengthLine, readHeaders_length .crlf payload.length hlength]
      by_cases hblank : (10 : UInt8) ∈ behind
      · -- behind the blank line
        obtain ⟨q, rfl, hq⟩ : ∃ q, behind = Eol.crlf.bytes ++ q ∧ payload = q ++ lost := by
          cases behind with
          | nil => cases hblank
          | cons b behind =>
            rw [List.cons_append] at hblankLine
            obtain ⟨rfl, hlf⟩ := List.cons_eq_cons.mp hblankLine
            cases behind with
            | nil => exact absurd hblank (by decide)
            | cons b q =>
              rw [List.cons_append] at hlf
              obtain ⟨rfl, hq⟩ := List.cons_eq_cons.mp hlf
              exact ⟨q, rfl, hq⟩
        have hshort : q.length < payload.length := by
          rw [hq, List.length_append]
          exact Nat.lt_add_of_pos_right (List.length_pos_iff.mpr hlost)
        rw [readHeaders_blank] at hheaders
        have hread : IStream.read { rest := q } payload.length
            = (q, { rest := [], eof := true, fail := true }) := by
          rw [IStream.read, if_pos (show IStream.good { rest := q } = true from rfl),
            if_neg (Nat.not_le.mpr hshort)]
        have hne : (q.length : Int) ≠ payload.length := by omega
        have hpos : ¬ (payload.length : Int) < 0 := by omega
        rw [readMessage, hheaders]
        dsimp only
        rw [if_neg Bool.false_ne_true, if_neg hpos, Int.toNat_natCast, hread, if_pos hne]
      · exact readMessage_of_headers (by rw [hheaders]; exact readHeaders_end hblank _)

section
variable {writeN : WriteN}

/-- **What arrives** is read as the messages that were taken whole. -/
theorem readAll_arrives {ms : List Str} (hms : ∀ m ∈ ms, m ≠ [] ∧ m.length < 2 ^ 31)
    {before : List Str} {bytes : Str}
    (h : Arrives writeN before
      ((ms.map frame).take (taken writeN before (ms.map frame) + 1)) bytes) :
    (readAll { rest := bytes }).1 = ms.take (taken writeN before (ms.map frame)) := by
  induction ms generalizing before bytes with
  | nil =>
    have hend := readMessage_of_headers (s := { rest := [] })
      (readHeaders_end (List.not_mem_nil) (-1))
    obtain rfl : bytes = [] := h
    rw [readAll, dif_pos hend]
    rfl
  | cons m ms ih =>
    obtain ⟨hne, hlength⟩ := hms m List.mem_cons_self
    rw [List.map_cons, taken] at h ⊢
    rw [List.take_succ_cons, Arrives] at h
    by_cases hwhole : writeN before (frame m) = (frame m).length
    · rw [if_pos hwhole] at h ⊢
      rw [if_pos hwhole] at h
      obtain ⟨rest, rfl, hrest⟩ := h
      have hread := readMessage_render plain m rest hlength
      rw [render_plain] at hread
      rw [List.take_succ_cons, readAll, hread, dif_neg hne,
        ih (fun x hx => hms x (List.mem_cons_of_mem _ hx)) hrest]
    · rw [if_neg hwhole] at h ⊢
      obtain ⟨lost, hbytes, hlost⟩ := h
      rw [readAll, dif_pos (readMessage_part hlength hbytes hlost)]
      rfl

end

/-! ## Runs -/

section
variable {writeN : WriteN} {calls : Writer → List Str}

/-- The stream under a list of writes, none of which is outside of the buffer. -/
theorem foldl_writeTo (ws : List Write) (o : Option OStream) :
    ws.foldl (fun o w => writeTo writeN w o) o = o.bind (exec (OStream.write writeN) ws) := by
  induction ws generalizing o with
  | nil =>
    cases o with
    | none => rfl
    | some s => rfl
  | cons w ws ih =>
    rw [List.foldl_cons, ih, writeTo, Option.bind_assoc]
    rfl

/-- **In every interleaving, whatever the socket does**: no character is stored outside of the
    buffer, and while the mutex is free, what arrives is read as the messages that the socket took
    whole, those of each thread in its order; the messages from the first on that it did not take
    whole are lost. -/
theorem whole_messages_arrive
    (hcalls : ∀ w, ∀ m ∈ calls w, m ≠ [] ∧ (frame m).length ≤ kBufSize)
    {acts : List (Mutex.Act Writer)} {s : Channel}
    (hrun : exec (channelStep writeN) acts (channelStart calls) = some s) :
    ∃ o, s.object = some o ∧ (s.holder = none → ∀ bytes, Arrives writeN [] o.buf.sent bytes →
      ∃ whole lost, s.made = whole ++ lost ∧ whole.length = taken writeN [] o.buf.sent ∧
        (readAll { rest := bytes }).1 = whole.map Prod.snd ∧
        (∀ w, callsOf w whole ++ callsOf w lost ++ s.todo w = calls w) ∧
        (lost = [] ↔ taken writeN [] o.buf.sent = o.buf.sent.length)) := by
  have hserial := run_serial hrun
  obtain ⟨done, hdone, hobject⟩ := hserial.object
  have hmade : ∀ m ∈ s.made.map Prod.snd, m ≠ [] ∧ (frame m).length ≤ kBufSize := by
    intro m hm
    obtain ⟨x, hx, rfl⟩ := List.mem_map.mp hm
    refine hcalls x.1 x.2 ?_
    rw [← hserial.order x.1]
    exact List.mem_append_left _
      (List.mem_map.mpr ⟨x, List.mem_filter.mpr ⟨hx, decide_eq_true rfl⟩, rfl⟩)
  -- the messages one after another, and the part of them that has been written
  obtain ⟨t, hsends, ht⟩ := (new_flushed writeN).sends fun m hm => (hmade m hm).2
  rw [List.nil_append] at ht
  rw [List.flatMap_map, ← hdone] at hsends
  obtain ⟨o, hwritten, hrest⟩ := exec_append_eq_some.mp hsends
  rw [foldl_writeTo, Option.bind_some, hwritten] at hobject
  refine ⟨o, hobject, fun hfree bytes harrive => ?_⟩
  have ho : o = t := by
    rw [Guarded.pending, hfree] at hrest
    exact Option.some.inj hrest
  subst ho
  have hle := taken_le writeN [] ((s.made.map Prod.snd).map frame)
  rw [List.length_map, List.length_map] at hle
  refine ⟨s.made.take (taken writeN [] ((s.made.map Prod.snd).map frame)),
    s.made.drop (taken writeN [] ((s.made.map Prod.snd).map frame)),
    (List.take_append_drop _ _).symm, ?_, ?_, fun w => ?_, ?_⟩
  · rw [ht.sent, taken_take, List.length_take]
    exact Nat.min_eq_left hle
  · rw [ht.sent] at harrive
    rw [readAll_arrives (fun m hm => ⟨(hmade m hm).1, ?_⟩) harrive, List.map_take]
    have hfits := (hmade m hm).2
    rw [frame, List.length_append] at hfits
    have hbuf : kBufSize < 2 ^ 31 := by decide
    omega
  · rw [← callsOf_append, List.take_append_drop]
    exact hserial.order w
  · rw [ht.sent, taken_take, List.drop_eq_nil_iff, List.length_take, List.length_map, List.length_map]
    omega

end

/-- The emulation thread sends `22` and the main thread `1`. -/
def twoCalls : Writer → List Str
  | .event => [str "22"]
  | .main => [str "1"]

/-- One message of a thread. -/
def sending (w : Writer) : List (Mutex.Act Writer) :=
  .lock w :: (List.replicate 5 (.act w) ++ [.unlock w])

/-- A socket that takes one block, and of the next three bytes. -/
def breaking : WriteN := fun before block => if before = [] then block.length else 3

theorem whole_messages_arrive_breaking : ∃ s o,
    exec (channelStep breaking) (sending .event ++ sending .main) (channelStart twoCalls) = some s ∧
      s.object = some o ∧ ∀ bytes, Arrives breaking [] o.buf.sent bytes →
        (readAll { rest := bytes }).1 = [str "22"] := by
  have hrun : (exec (channelStep breaking) (sending .event ++ sending .main)
      (channelStart twoCalls)).map (fun s => (s.holder.isNone, s.made,
        s.object.map fun o => taken breaking [] o.buf.sent))
      = some (true, [(.event, str "22"), (.main, str "1")], some 1) := by decide +kernel
  obtain ⟨s, hexec, hs⟩ := Option.map_eq_some_iff.mp hrun
  obtain ⟨hfree, hs⟩ := Prod.mk.inj hs
  obtain ⟨hmade, htaken⟩ := Prod.mk.inj hs
  have hcalls : ∀ w, ∀ m ∈ twoCalls w, m ≠ [] ∧ (frame m).length ≤ kBufSize := by
    intro w
    cases w <;> decide +kernel
  obtain ⟨o, ho, harrive⟩ := whole_messages_arrive hcalls hexec
  refine ⟨s, o, hexec, ho, fun bytes hbytes => ?_⟩
  obtain ⟨whole, lost, hsplit, hlength, hread, -, -⟩ :=
    harrive (Option.isNone_iff_eq_none.mp hfree) bytes hbytes
  rw [ho, Option.map_some] at htaken
  rw [Option.some.inj htaken] at hlength
  obtain ⟨x, rfl⟩ := List.length_eq_one_iff.mp hlength
  rw [hmade, List.singleton_append] at hsplit
  rw [hread, ← (List.cons_eq_cons.mp hsplit).1]
  rfl

end Udap.Dap
