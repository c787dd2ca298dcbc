/-
  MESSAGE FRAMING — `session::read_message` against `session::send_message` and
  `session::send_event_direct`.

  A DAP message travels as a block of header lines, a blank line, and as many payload bytes as
  the `Content-Length` header says.  Two threads write such frames to one stream: the main thread
  its responses (`send_message`), the emulation thread its events (`send_event_direct`), each
  holding `output_mutex_` for the whole frame.  One reader takes them apart again.

  1. **Reader** — `readHeaders` is the `getline` loop of `read_message`, `readMessage` the whole
     function (an empty result is the source's `return {}`), `readAll` its repetition in
     `session::run` up to the first empty result.

  2. **Writers** — `Wire` is the shared stream with its mutex and the calls each thread still has
     to make.  Its atomic actions are the lock, the writing of ONE BYTE by the lock's holder, and
     the unlock, so that a list of actions is any interleaving of the two threads, byte by byte.
     `sent` records the calls in the order in which they took the lock.

  3. **Correctness** — the payload is opaque: it may contain line ends, blank lines or the text
     `Content-Length:` itself.  `readMessage_render` says that a frame is read back whatever
     follows it, for every header block (`HeaderBlock`: extra header lines on either side of the
     length line, each line ended by CRLF or LF); the induction over frames is `readAll_render`.
     `WireInv` is the mutual exclusion invariant: the bytes written are the frames of `sent`, less
     what the holder has yet to write.

  4. **Runs** — no run gets stuck (`exists_completion`), and every order of the calls in which each
     thread's stay in theirs is the order of a run (`exec_sends`).
-/
import Udap.Lib.Run
import Udap.Cxx.Stream

set_option linter.unusedVariables false

namespace Udap.Framing

open Udap Udap.Cxx Udap.Run

/-! ## The reader -/

/-- The header name that `read_message` looks for. -/
def contentLength : Str := str "Content-Length:"

/-- `if (!line.empty() && line.back() == '\r') line.pop_back();` -/
def chomp (line : Str) : Str := if line.getLast? = some 13 then line.dropLast else line

/-- What one header line makes of `content_length`: a `Content-Length` header that parses sets it,
    a malformed one and every other header leave it. -/
def headerValue (line : Str) (n : Int) : Int :=
  if contentLength.isPrefixOf line then (stoi (line.drop 15)).getD n else n

/-- The header loop of `read_message`: line by line until the blank line, or until `getline`
    fails. -/
def readHeaders (s : IStream) (n : Int) : Int × IStream :=
  if h : s.getline.2.fail = false then
    -- the blank line ends the headers
    if (chomp s.getline.1).isEmpty then (n, s.getline.2)
    else readHeaders s.getline.2 (headerValue (chomp s.getline.1) n)
  else (n, s.getline.2)
termination_by s.size
decreasing_by exact IStream.size_getline h

/-- `session::read_message`: the payload of the next frame, empty if there is none. -/
def readMessage (s : IStream) : Str × IStream :=
  let (n, s) := readHeaders s (-1)
  if s.fail then ([], s)
  else if n < 0 then ([], s)
  else
    let (payload, s) := s.read n.toNat
    -- the stream ended inside of the payload
    if (payload.length : Int) ≠ n then ([], s) else (payload, s)

theorem readHeaders_size (s : IStream) (n : Int) :
    (readHeaders s n).2.fail = false → (readHeaders s n).2.size < s.size := by
  induction s, n using readHeaders.induct with
  | case1 s n h hblank =>
    intro _
    rw [readHeaders, dif_pos h, if_pos hblank]
    exact IStream.size_getline h
  | case2 s n h hblank ih =>
    rw [readHeaders, dif_pos h, if_neg hblank]
    exact fun hf => Nat.lt_trans (ih hf) (IStream.size_getline h)
  | case3 s n h =>
    rw [readHeaders, dif_neg h]
    exact fun hf => absurd hf h

/-- A non-empty result means that bytes were consumed. -/
theorem readMessage_size {s : IStream} (h : (readMessage s).1 ≠ []) :
    (readMessage s).2.size < s.size := by
  have hsize := readHeaders_size s (-1)
  revert h
  unfold readMessage
  generalize readHeaders s (-1) = r at hsize ⊢
  obtain ⟨n, t⟩ := r
  simp only at hsize ⊢
  split
  · exact fun h => absurd rfl h
  · rename_i hfail
    have hlt := hsize (by simpa using hfail)
    split
    · exact fun h => absurd rfl h
    · split
      · exact fun h => absurd rfl h
      · exact fun _ => Nat.lt_of_le_of_lt (IStream.size_read_le t n.toNat) hlt

/-- The reading side of `session::run`: messages until the first empty one. -/
def readAll (s : IStream) : List Str × IStream :=
  if h : (readMessage s).1 = [] then ([], (readMessage s).2)
  else ((readMessage s).1 :: (readAll (readMessage s).2).1, (readAll (readMessage s).2).2)
termination_by s.size
decreasing_by all_goals exact readMessage_size h

/-! ## The writers' frame, and the header blocks the reader takes as well -/

/-- The frame of `send_message` and `send_event_direct`. -/
def frame (payload : Str) : Str :=
  str "Content-Length: " ++ decimal payload.length ++ str "\r\n\r\n" ++ payload

/-- How a header line ends. -/
inductive Eol where
  | crlf
  | lf
  deriving DecidableEq

def Eol.bytes : Eol → Str
  | .crlf => [13, 10]
  | .lf => [10]

/-- A header line other than `Content-Length`: non-empty, on one line.  (A lone CR before an LF is
    not such a line but the empty line itself, ended by CRLF.) -/
structure HeaderLine where
  text : Str
  eol : Eol
  nonempty : text ≠ []
  oneLine : (10 : UInt8) ∉ text
  other : ¬ contentLength <+: text
  notBlank : eol = .lf → text ≠ [13]

def HeaderLine.bytes (l : HeaderLine) : Str := l.text ++ l.eol.bytes

/-- A header block around one length line: the lines before and after it, and the ends of the
    length line and of the blank line. -/
structure HeaderBlock where
  before : List HeaderLine
  after : List HeaderLine
  lengthEol : Eol
  blankEol : Eol

/-- A frame for `payload` under the header block `b`. -/
def HeaderBlock.render (b : HeaderBlock) (payload : Str) : Str :=
  b.before.flatMap HeaderLine.bytes
    ++ (str "Content-Length: " ++ decimal payload.length ++ b.lengthEol.bytes)
    ++ b.after.flatMap HeaderLine.bytes ++ b.blankEol.bytes ++ payload

/-- The header block that the writers produce. -/
def plain : HeaderBlock := ⟨[], [], .crlf, .crlf⟩

theorem render_plain (payload : Str) : plain.render payload = frame payload := by
  have h : str "\r\n\r\n" = [13, 10] ++ [13, 10] := by decide
  simp only [HeaderBlock.render, plain, frame, h, List.flatMap_nil, List.nil_append,
    List.append_nil, Eol.bytes, List.append_assoc]

/-! ## One step of the header loop on each kind of line -/

/-- `chomp` undoes a CRLF line end. -/
theorem chomp_crlf (text : Str) : chomp (text ++ [13]) = text := by
  simp [chomp]

/-- `chomp` only ever takes off a last CR. -/
theorem chomp_isPrefix (line : Str) : chomp line <+: line := by
  unfold chomp
  split
  · exact List.dropLast_prefix line
  · exact List.prefix_refl line

theorem chomp_of_last {line : Str} (h : line.getLast? ≠ some 13) : chomp line = line := by
  rw [chomp, if_neg h]

/-- The line that `getline` delivers for `text` under either line end. -/
def Eol.line : Eol → Str → Str
  | .crlf, text => text ++ [13]
  | .lf, text => text

theorem getline_eol (eol : Eol) {text : Str} (h : (10 : UInt8) ∉ text) (rest : Str) :
    IStream.getline { rest := text ++ eol.bytes ++ rest } = (eol.line text, { rest := rest }) := by
  cases eol with
  | crlf =>
    have hcr : (10 : UInt8) ∉ text ++ [13] := by simp [h]
    have := IStream.getline_lf hcr rest
    simpa [Eol.bytes, Eol.line] using this
  | lf => simpa [Eol.bytes, Eol.line] using IStream.getline_lf h rest

/-- One turn of the header loop on a line that is not blank. -/
theorem readHeaders_line (eol : Eol) {text : Str} (h : (10 : UInt8) ∉ text)
    (hne : chomp (eol.line text) ≠ []) (rest : Str) (n : Int) :
    readHeaders { rest := text ++ eol.bytes ++ rest } n
      = readHeaders { rest := rest } (headerValue (chomp (eol.line text)) n) := by
  rw [readHeaders, getline_eol eol h rest, dif_pos rfl, if_neg (by simpa using hne)]

/-- The blank line ends the header loop. -/
theorem readHeaders_blank (eol : Eol) (rest : Str) (n : Int) :
    readHeaders { rest := eol.bytes ++ rest } n = (n, { rest := rest }) := by
  have hget := getline_eol eol (show (10 : UInt8) ∉ [] by simp) rest
  rw [List.nil_append] at hget
  have hblank : (chomp (eol.line [])).isEmpty = true := by cases eol <;> rfl
  rw [readHeaders, hget, dif_pos rfl, if_pos hblank]

/-- The header value of a line with another name is the value so far. -/
theorem headerValue_other {line : Str} (h : ¬ contentLength <+: line) (n : Int) :
    headerValue line n = n := by
  rw [headerValue, if_neg (by simpa [List.isPrefixOf_iff_prefix] using h)]

/-- Extra header lines leave the length alone. -/
theorem readHeaders_extra (ls : List HeaderLine) (rest : Str) (n : Int) :
    readHeaders { rest := ls.flatMap HeaderLine.bytes ++ rest } n
      = readHeaders { rest := rest } n := by
  induction ls with
  | nil => rfl
  | cons l ls ih =>
    obtain ⟨text, eol, hne, hline, hother, hblank⟩ := l
    have hchomp : chomp (eol.line text) ≠ [] ∧ ¬ contentLength <+: chomp (eol.line text) := by
      cases eol with
      | crlf => rw [Eol.line, chomp_crlf]; exact ⟨hne, hother⟩
      | lf =>
        refine ⟨fun h => ?_, fun h => hother (h.trans (chomp_isPrefix text))⟩
        -- only the lone CR is chomped to the empty line
        rw [Eol.line, chomp] at h
        split at h
        · rename_i hlast
          have := List.dropLast_append_getLast? 13 hlast
          rw [h] at this
          exact hblank rfl this.symm
        · exact hne h
    rw [List.flatMap_cons, List.append_assoc, HeaderLine.bytes,
      readHeaders_line eol hline hchomp.1, headerValue_other hchomp.2, ih]

/-- The length line sets the length. -/
theorem readHeaders_length (eol : Eol) (k : Nat) (hk : k < 2 ^ 31) (rest : Str) (n : Int) :
    readHeaders { rest := str "Content-Length: " ++ decimal k ++ eol.bytes ++ rest } n
      = readHeaders { rest := rest } k := by
  have hname : str "Content-Length: " = contentLength ++ [32] := by decide
  have hlf : (10 : UInt8) ∉ str "Content-Length: " ++ decimal k := by
    intro h
    rcases List.mem_append.mp h with h | h
    · exact absurd h (by decide)
    · exact absurd (decimal_digits k 10 h) (by decide)
  have hlast : (str "Content-Length: " ++ decimal k).getLast? ≠ some 13 := by
    intro h
    rw [List.getLast?_append_of_ne_nil _ (decimal_ne_nil k)] at h
    exact absurd (decimal_digits k 13 (List.mem_of_getLast? h)) (by decide)
  have hchomp : chomp (eol.line (str "Content-Length: " ++ decimal k))
      = str "Content-Length: " ++ decimal k := by
    cases eol with
    | crlf => exact chomp_crlf _
    | lf => exact chomp_of_last hlast
  have hdrop : (str "Content-Length: " ++ decimal k).drop 15 = [32] ++ decimal k := by
    rw [hname, List.append_assoc]
    exact List.drop_left' (by decide)
  have hvalue : headerValue (str "Content-Length: " ++ decimal k) n = k := by
    have hprefix : contentLength.isPrefixOf (str "Content-Length: " ++ decimal k) = true := by
      rw [List.isPrefixOf_iff_prefix, hname, List.append_assoc]
      exact List.prefix_append _ _
    rw [headerValue, if_pos hprefix, hdrop, stoi_decimal [32] (by simp [isSpace]) k hk]
    rfl
  rw [readHeaders_line eol hlf (by rw [hchomp]; simp [hname]), hchomp, hvalue]

/-- The header loop on a text without an LF: the stream has come to its end. -/
theorem readHeaders_end {part : Str} (h : (10 : UInt8) ∉ part) (n : Int) :
    (readHeaders { rest := part } n).2.good = false := by
  have hget := IStream.getline_end h
  cases part with
  | nil =>
    rw [readHeaders, hget, dif_neg (by decide)]
    rfl
  | cons c cs =>
    have hfail : (c :: cs).isEmpty = false := rfl
    rw [readHeaders, hget, dif_pos hfail]
    split
    · rfl
    · -- a last line without an end, and then nothing
      have hend : (IStream.getline { rest := [], eof := true, fail := (c :: cs).isEmpty }).2.fail
          ≠ false := Bool.noConfusion
      rw [readHeaders, dif_neg hend]
      rfl

/-- A stream that ends among the headers holds no message. -/
theorem readMessage_of_headers {s : IStream} (h : (readHeaders s (-1)).2.good = false) :
    (readMessage s).1 = [] := by
  unfold readMessage
  generalize readHeaders s (-1) = r at h ⊢
  obtain ⟨n, t⟩ := r
  dsimp only at h ⊢
  have hread : t.read n.toNat = ([], { t with fail := true }) := by
    rw [IStream.read, if_neg (by rw [h]; exact Bool.false_ne_true)]
  rw [hread]
  split
  · rfl
  · split
    · rfl
    · split
      · rfl
      · rfl

/-! ## A frame is read back, whatever follows it -/

/-- **One frame.**  Under any header block, a payload below `2^31` bytes is read back and the
    stream is left at what followed the frame. -/
theorem readMessage_render (b : HeaderBlock) (p rest : Str) (hp : p.length < 2 ^ 31) :
    readMessage { rest := b.render p ++ rest } = (p, { rest := rest }) := by
  have hheaders : readHeaders { rest := b.render p ++ rest } (-1)
      = ((p.length : Int), { rest := p ++ rest }) := by
    have hassoc : b.render p ++ rest = b.before.flatMap HeaderLine.bytes
        ++ (str "Content-Length: " ++ decimal p.length ++ b.lengthEol.bytes
          ++ (b.after.flatMap HeaderLine.bytes ++ (b.blankEol.bytes ++ (p ++ rest)))) := by
      simp only [HeaderBlock.render, List.append_assoc]
    rw [hassoc, readHeaders_extra, readHeaders_length _ _ hp, readHeaders_extra,
      readHeaders_blank]
  have hnat : ((p.length : Int)).toNat = p.length := Int.toNat_natCast _
  simp only [readMessage, hheaders, Bool.false_eq_true, if_false, hnat, IStream.read_append,
    ne_eq, not_true_eq_false]
  rw [if_neg (by omega)]

/-- **All frames.**  Non-empty payloads under any header blocks are read back in order, and reading
    stops at the end of input. -/
theorem readAll_render (fs : List (HeaderBlock × Str))
    (hfs : ∀ f ∈ fs, f.2 ≠ [] ∧ f.2.length < 2 ^ 31) :
    readAll { rest := fs.flatMap fun f => f.1.render f.2 }
      = (fs.map Prod.snd, { rest := [], eof := true, fail := true }) := by
  induction fs with
  | nil =>
    have hend : readMessage { rest := [] } = ([], { rest := [], eof := true, fail := true }) := by
      rw [readMessage, readHeaders]
      rfl
    rw [List.flatMap_nil, readAll, hend]
    rfl
  | cons f fs ih =>
    obtain ⟨hne, hlen⟩ := hfs f List.mem_cons_self
    have hread := readMessage_render f.1 f.2 (fs.flatMap fun f => f.1.render f.2) hlen
    rw [List.flatMap_cons, readAll, hread, dif_neg hne, ih fun g hg => hfs g (by simp [hg])]
    rfl

/-! ## Two threads writing to one stream -/

/-- The two threads that write frames. -/
inductive Writer where
  /-- The main thread, in `session::send_message`. -/
  | main
  /-- The emulation thread, in `session::send_event_direct`. -/
  | event
  deriving DecidableEq

/-- The output stream, `output_mutex_` and the calls still to be made.  `holder` is the thread
    that holds the mutex together with the bytes of its frame not yet written. -/
structure Wire where
  out : Str
  holder : Option (Writer × Str)
  todo : Writer → List Str
  sent : List (Writer × Str)

/-- The atomic actions of a writer. -/
inductive WireAct where
  | lock (w : Writer)
  | write (w : Writer)
  | unlock (w : Writer)

/-- `lock_guard` on a free mutex, one byte of the frame by the holder, and the end of the guard's
    scope once the frame is out. -/
def wireStep : WireAct → Wire → Option Wire
  | .lock w, s =>
    match s.holder, s.todo w with
    | none, p :: ps =>
      some { s with holder := some (w, frame p), todo := fun v => if v = w then ps else s.todo v,
                    sent := s.sent ++ [(w, p)] }
    | _, _ => none
  | .write w, s =>
    match s.holder with
    | some (v, b :: bs) =>
      if v = w then some { s with out := s.out ++ [b], holder := some (v, bs) } else none
    | _ => none
  | .unlock w, s =>
    match s.holder with
    | some (v, []) => if v = w then some { s with holder := none } else none
    | _ => none

/-- The stream before anything is written, with the calls of each thread. -/
def Wire.start (main event : List Str) : Wire where
  out := []
  holder := none
  todo := fun w => match w with
    | .main => main
    | .event => event
  sent := []

/-- All calls have been made and have returned. -/
def Wire.Done (s : Wire) : Prop := s.holder = none ∧ ∀ w, s.todo w = []

/-- The calls of one writer among some calls. -/
def callsBy (w : Writer) (calls : List (Writer × Str)) : List Str :=
  (calls.filter fun x => x.1 = w).map Prod.snd

theorem callsBy_cons (w : Writer) (x : Writer × Str) (calls : List (Writer × Str)) :
    callsBy w (x :: calls) = if x.1 = w then x.2 :: callsBy w calls else callsBy w calls := by
  unfold callsBy
  by_cases hw : x.1 = w
  · rw [if_pos hw, List.filter_cons_of_pos (by simpa using hw), List.map_cons]
  · rw [if_neg hw, List.filter_cons_of_neg (by simpa using hw)]

/-- The payloads of one thread, in the order in which it sent them. -/
def Wire.sentBy (s : Wire) (w : Writer) : List Str := callsBy w s.sent

/-- **The mutual exclusion invariant.**  What is written and what the holder of the mutex has yet
    to write are together the frames of `sent`, whole and in order; and each thread's calls are
    those it has made followed by those it has still to make. -/
structure WireInv (calls : Writer → List Str) (s : Wire) : Prop where
  output : s.out ++ (s.holder.map Prod.snd).getD [] = s.sent.flatMap fun x => frame x.2
  order : ∀ w, s.sentBy w ++ s.todo w = calls w

theorem start_inv (main event : List Str) :
    WireInv (Wire.start main event).todo (Wire.start main event) :=
  ⟨rfl, fun _ => rfl⟩

theorem wireStep_inv (calls : Writer → List Str) (a : WireAct) (s t : Wire)
    (hs : WireInv calls s) (h : wireStep a s = some t) : WireInv calls t := by
  obtain ⟨houtput, horder⟩ := hs
  cases a with
  | lock w =>
    simp only [wireStep] at h
    split at h
    · rename_i p ps hholder htodo
      obtain rfl := Option.some.inj h
      refine ⟨?_, fun v => ?_⟩
      · rw [hholder] at houtput
        simpa using houtput
      · have hv := horder v
        -- the frame is one of `w`, and no other writer has sent anything
        by_cases hvw : v = w
        · subst hvw
          rw [htodo] at hv
          simpa [Wire.sentBy, callsBy] using hv
        · have hwv : ¬ w = v := fun heq => hvw heq.symm
          simpa [Wire.sentBy, callsBy, hvw, hwv] using hv
    · cases h
  | write w =>
    simp only [wireStep] at h
    split at h
    · rename_i v b bs hholder
      split at h
      · obtain rfl := Option.some.inj h
        rw [hholder] at houtput
        exact ⟨by simpa using houtput, horder⟩
      · cases h
    · cases h
  | unlock w =>
    simp only [wireStep] at h
    split at h
    · rename_i v hholder
      split at h
      · obtain rfl := Option.some.inj h
        rw [hholder] at houtput
        exact ⟨by simpa using houtput, horder⟩
      · cases h
    · cases h

/-- Once all calls have returned, the stream holds the frames of `sent` and nothing else, and
    each thread has sent exactly its calls, in its own order. -/
theorem done_output {calls : Writer → List Str} {s : Wire} (hs : WireInv calls s) (hd : s.Done) :
    s.out = s.sent.flatMap (fun x => frame x.2) ∧ ∀ w, s.sentBy w = calls w := by
  refine ⟨?_, fun w => ?_⟩
  · have houtput := hs.output
    rw [hd.1] at houtput
    simpa using houtput
  · have horder := hs.order w
    rwa [hd.2 w, List.append_nil] at horder

/-- The frames of the writers are frames under the plain header block. -/
theorem frames_eq_render (sent : List (Writer × Str)) :
    (sent.flatMap fun x => frame x.2)
      = ((List.replicate sent.length plain).zip (sent.map Prod.snd)).flatMap
          fun f => f.1.render f.2 := by
  induction sent with
  | nil => rfl
  | cons x xs ih =>
    rw [List.length_cons, List.replicate_succ, List.map_cons, List.zip_cons_cons,
      List.flatMap_cons, List.flatMap_cons, render_plain, ih]

/-- A payload that was sent is one of its thread's calls. -/
theorem mem_calls_of_sent {s : Wire} {x : Writer × Str} (hx : x ∈ s.sent) :
    x.2 ∈ s.sentBy x.1 :=
  List.mem_map.mpr ⟨x, List.mem_filter.mpr ⟨hx, decide_eq_true rfl⟩, rfl⟩

/-! ### Every order is the order of a run -/

/-- The holder writes what is left of its frame. -/
theorem exec_writes {w : Writer} {bs : Str} {s : Wire} (h : s.holder = some (w, bs)) :
    exec wireStep (List.replicate bs.length (.write w)) s
      = some { s with out := s.out ++ bs, holder := some (w, []) } := by
  induction bs generalizing s with
  | nil =>
    obtain ⟨out, holder, todo, sent⟩ := s
    obtain rfl : holder = some (w, []) := h
    rw [List.append_nil]
    rfl
  | cons b bs ih =>
    have hstep : wireStep (.write w) s = some { s with out := s.out ++ [b], holder := some (w, bs) } := by
      simp only [wireStep, h, if_true]
    rw [List.length_cons, List.replicate_succ, exec_cons, hstep, Option.bind_some, ih rfl,
      List.append_assoc]
    rfl

/-- And it leaves the mutex. -/
theorem exec_release {w : Writer} {bs : Str} {s : Wire} (h : s.holder = some (w, bs)) :
    exec wireStep (List.replicate bs.length (.write w) ++ [.unlock w]) s
      = some { s with out := s.out ++ bs, holder := none } := by
  rw [exec_append, exec_writes h, Option.bind_some]
  simp only [exec, wireStep, if_true, Option.bind_some]

/-- The actions of one call. -/
def sendActs (x : Writer × Str) : List WireAct :=
  .lock x.1 :: (List.replicate (frame x.2).length (.write x.1) ++ [.unlock x.1])

/-- **One call**, made while the mutex is free. -/
theorem exec_send {x : Writer × Str} {ps : List Str} {s : Wire} (hfree : s.holder = none)
    (htodo : s.todo x.1 = x.2 :: ps) : exec wireStep (sendActs x) s = some
      { out := s.out ++ frame x.2, holder := none,
        todo := fun v => if v = x.1 then ps else s.todo v, sent := s.sent ++ [x] } := by
  have hlock : wireStep (.lock x.1) s = some
      { s with holder := some (x.1, frame x.2), todo := fun v => if v = x.1 then ps else s.todo v,
               sent := s.sent ++ [x] } := by
    simp only [wireStep, hfree, htodo]
  rw [sendActs, exec_cons, hlock, Option.bind_some, exec_release rfl]

/-- **Any calls**, as long as each thread's are those it has still to make. -/
theorem exec_sends {calls : List (Writer × Str)} {s : Wire} (hfree : s.holder = none)
    (hcalls : ∀ w, callsBy w calls = s.todo w) :
    ∃ t, exec wireStep (calls.flatMap sendActs) s = some t ∧ t.Done ∧ t.sent = s.sent ++ calls := by
  induction calls generalizing s with
  | nil => exact ⟨s, rfl, ⟨hfree, fun w => (hcalls w).symm⟩, (List.append_nil _).symm⟩
  | cons x calls ih =>
    have htodo : s.todo x.1 = x.2 :: callsBy x.1 calls := by
      rw [← hcalls x.1, callsBy_cons, if_pos rfl]
    have hrest : ∀ w, callsBy w calls = if w = x.1 then callsBy x.1 calls else s.todo w := by
      intro w
      by_cases hw : w = x.1
      · rw [if_pos hw, hw]
      · rw [if_neg hw, ← hcalls w, callsBy_cons, if_neg (Ne.symm hw)]
    obtain ⟨t, hrun, hdone, hsent⟩ := ih (s := ⟨s.out ++ frame x.2, none,
      fun w => if w = x.1 then callsBy x.1 calls else s.todo w, s.sent ++ [x]⟩) rfl hrest
    refine ⟨t, ?_, hdone, by rw [hsent, List.append_assoc]; rfl⟩
    rw [List.flatMap_cons, exec_append, exec_send hfree htodo, Option.bind_some, hrun]

/-- **No run gets stuck**: the holder can write its frame to the end, and then the calls that are
    left can be made. -/
theorem exists_completion (s : Wire) : ∃ acts t, exec wireStep acts s = some t ∧ t.Done := by
  obtain ⟨acts, u, hrun, hfree⟩ : ∃ acts u, exec wireStep acts s = some u ∧ u.holder = none := by
    cases hholder : s.holder with
    | none => exact ⟨[], s, rfl, hholder⟩
    | some x => exact ⟨_, _, exec_release hholder, rfl⟩
  let rest := (u.todo .main).map (fun p => (Writer.main, p)) ++
    (u.todo .event).map fun p => (Writer.event, p)
  have hrest : ∀ w, callsBy w rest = u.todo w := by
    intro w
    cases w <;> simp [rest, callsBy, List.filter_map, Function.comp_def]
  obtain ⟨t, hsends, hdone, -⟩ := exec_sends hfree hrest
  exact ⟨acts ++ rest.flatMap sendActs, t, exec_append_eq_some.mpr ⟨u, hrun, hsends⟩, hdone⟩

/-- **Framing is sound under every interleaving.**  Every order of the calls in which each thread's
    stay in theirs is the order of a run, and no run gets stuck.  Whenever all calls have returned,
    repeated `read_message` yields exactly the payloads sent, each once, each thread's in its own
    order, and stops at the end of input; and it yields the same from the frames under any other
    header blocks. -/
theorem interleaved_frames_decode (main event : List Str)
    (hpay : ∀ p ∈ main ++ event, p ≠ [] ∧ p.length < 2 ^ 31) :
    (∀ sent, callsBy .main sent = main → callsBy .event sent = event →
      ∃ acts s, exec wireStep acts (Wire.start main event) = some s ∧ s.Done ∧ s.sent = sent) ∧
    ∀ acts s, exec wireStep acts (Wire.start main event) = some s →
      (∃ more t, exec wireStep more s = some t ∧ t.Done) ∧
      (s.Done →
        readAll { rest := s.out } = (s.sent.map Prod.snd, { rest := [], eof := true, fail := true })
        ∧ s.sentBy .main = main ∧ s.sentBy .event = event
        ∧ ∀ blocks : List HeaderBlock, blocks.length = s.sent.length →
            readAll { rest := (blocks.zip (s.sent.map Prod.snd)).flatMap fun f => f.1.render f.2 }
              = readAll { rest := s.out }) := by
  refine ⟨fun sent hmain hevent => ?_, fun acts s hrun => ⟨exists_completion s, fun hdone => ?_⟩⟩
  · have hcalls : ∀ w, callsBy w sent = (Wire.start main event).todo w := by
      intro w
      cases w with
      | main => exact hmain
      | event => exact hevent
    obtain ⟨s, hrun, hdone, hsent⟩ := exec_sends rfl hcalls
    exact ⟨_, s, hrun, hdone, hsent⟩
  have hinv := exec_inv (wireStep_inv _) acts _ s (start_inv main event) hrun
  obtain ⟨hout, hsent⟩ := done_output hinv hdone
  have hgood : ∀ p ∈ s.sent.map Prod.snd, p ≠ [] ∧ p.length < 2 ^ 31 := by
    intro p hp
    obtain ⟨⟨w, q⟩, hx, rfl⟩ := List.mem_map.mp hp
    have hq : q ∈ (Wire.start main event).todo w := hsent w ▸ mem_calls_of_sent hx
    apply hpay q
    cases w with
    | main => exact List.mem_append_left _ hq
    | event => exact List.mem_append_right _ hq
  have hread : ∀ blocks : List HeaderBlock, blocks.length = s.sent.length →
      readAll { rest := (blocks.zip (s.sent.map Prod.snd)).flatMap fun f => f.1.render f.2 }
        = (s.sent.map Prod.snd, { rest := [], eof := true, fail := true }) := by
    intro blocks hlen
    rw [readAll_render _ fun f hf => hgood f.2 (List.of_mem_zip hf).2,
      List.map_snd_zip (by simp [hlen])]
  have hdecode := hread (List.replicate s.sent.length plain) List.length_replicate
  rw [← frames_eq_render, ← hout] at hdecode
  exact ⟨hdecode, hsent .main, hsent .event, fun blocks hlen => by rw [hread blocks hlen, hdecode]⟩

/-- A payload of two line ends, which the event has sent before the main thread sends a brace pair. -/
def twoSent : List (Writer × Str) := [(.event, str "\r\n\r\n"), (.main, str "{}")]

/-- The run in which the event is the first to take the mutex. -/
theorem interleaved_frames_decode_two : ∃ s,
    exec wireStep (twoSent.flatMap sendActs) (Wire.start [str "{}"] [str "\r\n\r\n"]) = some s ∧
      s.Done ∧ s.sent = twoSent ∧
      readAll { rest := s.out }
        = ([str "\r\n\r\n", str "{}"], { rest := [], eof := true, fail := true }) := by
  have hcalls : ∀ w, callsBy w twoSent = (Wire.start [str "{}"] [str "\r\n\r\n"]).todo w := by
    intro w
    cases w <;> rfl
  obtain ⟨s, hrun, hdone, hsent⟩ := exec_sends rfl hcalls
  obtain ⟨-, hall⟩ := interleaved_frames_decode [str "{}"] [str "\r\n\r\n"] (by decide)
  refine ⟨s, hrun, hdone, hsent, ?_⟩
  rw [((hall _ s hrun).2 hdone).1, hsent]
  rfl

end Udap.Framing
