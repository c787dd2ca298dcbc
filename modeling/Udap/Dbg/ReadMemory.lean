/-
  READING MEMORY — what a client decodes is what the memory holds.

  `readMemory` answers with the bytes in base 64.  `z80_target::read_memory` stops at the end of the
  memory, and the handler encodes three bytes at a time, filling up the last group.

  `decode_base64` is the round trip for bytes of any number; `readMemory_data` follows a request from
  its arguments to the `data` field of the response text.
-/
import Udap.Lib.Base64
import Udap.Json.Codec
import Udap.Dap.Answers
import Udap.Dbg.Relaunch

set_option linter.unusedVariables false

namespace Udap

open Udap.Cxx Udap.Dap

/-! ## The encoding -/

namespace Dap

/-- The digits are the alphabet of base 64. -/
theorem value_base64Digit (i : Nat) : Base64.value (base64Digit i) = some (i % 64) := by
  have hall : ∀ i < 64, Base64.value (base64Digits.getD i 0) = some i := by decide +kernel
  exact hall (i % 64) (Nat.mod_lt i (by omega))

/-- The number of two, three or four digits. -/
theorem number_two (i j : Nat) :
    Base64.number [base64Digit i, base64Digit j] = some (64 * (i % 64) + j % 64) := by
  have hnone : Base64.number [] = some 0 := rfl
  have hone : Base64.number [base64Digit i] = some (64 * 0 + i % 64) :=
    Base64.number_concat hnone (value_base64Digit i)
  rw [Nat.mul_zero, Nat.zero_add] at hone
  exact Base64.number_concat hone (value_base64Digit j)

theorem number_three (i j k : Nat) :
    Base64.number [base64Digit i, base64Digit j, base64Digit k]
      = some (64 * (64 * (i % 64) + j % 64) + k % 64) :=
  Base64.number_concat (number_two i j) (value_base64Digit k)

theorem number_four (i j k l : Nat) :
    Base64.number [base64Digit i, base64Digit j, base64Digit k, base64Digit l]
      = some (64 * (64 * (64 * (i % 64) + j % 64) + k % 64) + l % 64) :=
  Base64.number_concat (number_three i j k) (value_base64Digit l)

/-- A byte from a number. -/
theorem ofNat_eq {n : Nat} {x : UInt8} (h : n % 256 = x.toNat) : UInt8.ofNat n = x := by
  apply UInt8.toNat_inj.mp
  rw [UInt8.toNat_ofNat', ← h]

/-- **The round trip.** -/
theorem decode_base64 (bytes : List UInt8) : Base64.decode (base64 bytes) = some bytes := by
  induction bytes using base64.induct with
  | case1 => rfl
  | case2 x =>
    have hx := x.toNat_lt
    rw [base64]
    -- the low four bits of the second digit belong to no byte
    rw [Base64.decode_one (number_two _ _) (by omega)]
    rw [ofNat_eq (x := x) (by omega)]
  | case3 x y =>
    have hx := x.toNat_lt
    have hy := y.toNat_lt
    rw [base64]
    rw [Base64.decode_two (number_three _ _ _) (by omega)]
    rw [ofNat_eq (x := x) (by omega), ofNat_eq (x := y) (by omega)]
  | case4 x y z rest ih =>
    have hx := x.toNat_lt
    have hy := y.toNat_lt
    have hz := z.toNat_lt
    rw [base64]
    rw [Base64.decode_three (number_four _ _ _ _), ih, Option.map_some]
    rw [ofNat_eq (x := x) (by omega), ofNat_eq (x := y) (by omega), ofNat_eq (x := z) (by omega)]

/-- Four characters for every three bytes that are started. -/
theorem base64_length (bytes : List UInt8) :
    (base64 bytes).length = 4 * ((bytes.length + 2) / 3) := by
  induction bytes using base64.induct with
  | case1 => rfl
  | case2 x =>
    rw [base64]
    simp only [List.length_cons, List.length_nil]
  | case3 x y =>
    rw [base64]
    simp only [List.length_cons, List.length_nil]
  | case4 x y z rest ih =>
    rw [base64]
    simp only [List.length_cons, ih]
    omega

end Dap

/-! ## The response -/

section
variable {C F : Type} [FloatCast F] [JsonText F] [LawfulJsonText F]

/-- A target whose `read_memory` is that of `z80_target`. -/
def z80Reading (T : Target (Z80Target C)) : Target (Z80Target C) :=
  { T with readMemory := fun addr count t => t.readMemory addr count }

/-- The `data` field of a response text. -/
def responseData (F : Type) [JsonText F] (text : Str) : Option Str := do
  let j ← JsonText.parse (F := F) text
  let body ← j.member (str "body")
  let data ← body.member (str "data")
  data.getStr

/-- The text that the handler returns has the encoded bytes in its `data` field. -/
theorem onReadMemory_data (T : Target S) {b : Request F} (hb : b.WellFormed)
    {r : ReadMemoryRequest} (hr : ReadMemoryRequest.ofRequest b = some r) (s : Dap.Session S) :
    ∃ text, onReadMemory T b s = some (text, s) ∧ responseData F text = some (base64
      (T.readMemory (UInt16.ofNat ((r.memoryReference.toNat + r.offset) % 65536).toNat)
        (max 0 r.count) s.target)) := by
  obtain ⟨start, hstart⟩ : ∃ start : UInt16,
    start = UInt16.ofNat ((r.memoryReference.toNat + r.offset) % 65536).toNat := ⟨_, rfl⟩
  obtain ⟨bytes, hbytes⟩ : ∃ bytes, bytes = T.readMemory start (max 0 r.count) s.target := ⟨_, rfl⟩
  rw [← hstart, ← hbytes]
  obtain ⟨body, hbody⟩ : ∃ body : Json F, body = .object [(str "address", .str (formatHex start 4)),
    (str "data", .str (base64 bytes)), (str "unreadableBytes", .int 0)] := ⟨_, rfl⟩
  have htexts : body.texts = true := by
    rw [hbody, Json.texts_object rfl]
    simp [utf8_of_ascii (formatHex_ascii start 4), utf8_of_ascii (base64_ascii bytes)]
  have hsorted : body.sorted = true := by
    rw [hbody]
    exact Json.sorted_object (by simp)
  obtain ⟨text, htext⟩ : ∃ text, reply b body = some text := by
    rw [← Option.isSome_iff_exists, reply_isSome hb, htexts]
  have hdata : body.member (str "data") = some (.str (base64 bytes)) := by
    rw [hbody]
    show ((((Json.obj []).set _ _).set (str "data") _).set (str "unreadableBytes") _).member _ = _
    rw [Json.member_set, if_neg (by decide), Json.member_set, if_pos rfl]
  refine ⟨text, ?_, ?_⟩
  · rw [onReadMemory, hr]
    dsimp only [Option.bind_eq_bind, Option.bind_some]
    rw [← hstart, ← hbytes, ← hbody, htext, Option.bind_some]
  · rw [responseData, parse_reply hsorted htext]
    dsimp only [Option.bind_eq_bind, Option.bind_some]
    rw [Json.member_set, if_pos rfl, Option.bind_some, hdata]
    rfl

/-- **What a client decodes.**  For every request with a reference, an offset and a count, the
    `data` field of the response is base 64 for the bytes from the start on, as many as were asked
    for and the memory still has, and no other. -/
theorem readMemory_data (T : Target (Z80Target C)) {b : Request F} (hb : b.WellFormed)
    (memoryReference : UInt16) (offset count : Int)
    (hr : ReadMemoryRequest.ofRequest b = some ⟨memoryReference, offset, count⟩)
    (s : Dap.Session (Z80Target C)) :
    let start := ((memoryReference.toNat + offset) % 65536).toNat
    let number := min (max count 0).toNat (65536 - start)
    ∃ text data, onReadMemory (z80Reading T) b s = some (text, s) ∧
      responseData F text = some data ∧
      Base64.decode data = some ((List.range number).map fun i =>
        s.target.computer.memory (UInt16.ofNat (start + i))) ∧
      data.length = 4 * ((number + 2) / 3) := by
  intro start number
  obtain ⟨text, htext, hdata⟩ := onReadMemory_data (z80Reading T) hb hr s
  have hlt : start < 65536 := by omega
  have hstart : (UInt16.ofNat start).toNat = start := by
    rw [UInt16.toNat_ofNat']
    exact Nat.mod_eq_of_lt hlt
  have hread : (z80Reading T).readMemory (UInt16.ofNat start) (max 0 count) s.target
      = (List.range number).map fun i => s.target.computer.memory (UInt16.ofNat (start + i)) := by
    show s.target.readMemory (UInt16.ofNat start) (max 0 count) = _
    rw [Z80Target.readMemory, hstart, max_comm]
    rfl
  rw [hread] at hdata
  refine ⟨text, _, htext, hdata, decode_base64 _, ?_⟩
  rw [base64_length, List.length_map, List.length_range]

end

/-- A request for four bytes, close to the end of the memory. -/
def topRequest : Request Empty where
  seq := 9
  type := str "request"
  command := str "readMemory"
  arguments := .obj [(str "count", .int 4), (str "memoryReference", .str (str "0xFFFF")),
    (str "offset", .int (-1))]

/-- A memory that holds the low byte of every address. -/
def countingSession : Dap.Session (Z80Target Unit) :=
  { target := { computer := ⟨(), fun addr => addr.toUInt8⟩ } }

/-- It gets the last two. -/
theorem readMemory_data_top :
    ∃ text data, onReadMemory (z80Reading default) topRequest countingSession
        = some (text, countingSession) ∧
      responseData Empty text = some data ∧ Base64.decode data = some [0xFE, 0xFF] ∧
      data.length = 4 :=
  readMemory_data default
    ⟨by decide, by decide, by decide, ⟨by decide +kernel, by decide +kernel⟩⟩ 0xFFFF (-1) 4
    rfl countingSession

end Udap
