/-
  INTEL HEX — what `load_ihx` makes of a file.

  1. **Records** — a well-formed record, with its digits as they are written (`Record`), and what
     the records of a file mean: the bytes that they store, where their data starts, and the
     entries that they name, each with the base that is in force (`based`).

  2. **Reading** — two digits of a record are read back as the byte that they were printed for.

  3. **Loading** — the loop keeps to the meaning of the records behind it (`loadLines_records`), so
     that a file of well-formed records leaves the memory that they store, and their entry
     (`load_records`).

  4. **Records that are not well formed** — which lines are passed over, and that nobody looks at
     the checksum.
-/
import Udap.Dbg.Launch

set_option linter.unusedVariables false

namespace Udap.Ihx

open Udap.Cxx Udap.Sdcc

/-! ## Records -/

inductive RecordType where
  | data
  | endOfFile
  | extendedSegment
  | startSegment
  | extendedLinear
  | startLinear
  deriving DecidableEq

def RecordType.code : RecordType → UInt8
  | .data => 0
  | .endOfFile => 1
  | .extendedSegment => 2
  | .startSegment => 3
  | .extendedLinear => 4
  | .startLinear => 5

/-- The number that bytes stand for, the high one first. -/
def bigEndian (bytes : List UInt8) : Nat := bytes.foldl (fun n b => 256 * n + b.toNat) 0

/-- What a record of each type may hold. -/
def RecordType.Fits (type : RecordType) (offset : UInt16) (data : List UInt8) : Prop :=
  match type with
  | .data => offset.toNat + data.length ≤ 65536
  | .endOfFile => True
  | .extendedSegment => data.length = 2
  | .startSegment => data.length = 4
  | .extendedLinear => data.length = 2 ∧ bigEndian data < 0xFFFF
  | .startLinear => data.length = 4

/-- A byte in two digits. -/
def hexByte (b : UInt8) : Str := hexPadded 2 b.toNat

/-- The bytes of a record in front of its checksum. -/
def recordBytes (type : RecordType) (offset : UInt16) (data : List UInt8) : List UInt8 :=
  [UInt8.ofNat data.length, (offset >>> 8).toUInt8, offset.toUInt8, type.code] ++ data

/-- A well-formed record, with its digits as they are written, in letters of either case. -/
structure Record where
  type : RecordType
  offset : UInt16
  data : List UInt8
  checksum : UInt8
  digits : Str
  length_lt : data.length < 256
  fits : type.Fits offset data
  checked : (recordBytes type offset data ++ [checksum]).sum = 0
  printed : digits.map capital = (recordBytes type offset data ++ [checksum]).flatMap hexByte

def Record.text (r : Record) : Str := 58 :: r.digits

/-- A line of a file: a record, or something else that the loader passes over. -/
inductive Line where
  | record (r : Record)
  | other (text : Str) (h : text.head? ≠ some 58)

def Line.text : Line → Str
  | .record r => r.text
  | .other text _ => text

def Line.record? : Line → Option Record
  | .record r => some r
  | .other _ _ => none

/-! ## What records mean -/

/-- The base behind a record. -/
def nextBase (base : Nat) (r : Record) : Nat :=
  match r.type with
  | .extendedSegment => bigEndian r.data * 16
  | .extendedLinear => bigEndian r.data * 65536
  | _ => base

/-- The records in front of the first that ends the file, each with the base in force: that of the
    latest record that sets one. -/
def based (base : Nat) : List Record → List (Nat × Record)
  | [] => []
  | r :: rs => if r.type = .endOfFile then [] else (base, r) :: based (nextBase base r) rs

/-- The bytes that a record stores, each with its address. -/
def stores (e : Nat × Record) : List (UInt8 × Nat) :=
  if e.2.type = .data then e.2.data.zipIdx (e.1 + e.2.offset.toNat) else []

/-- Where the data of a record starts, if it has any. -/
def dataStart (e : Nat × Record) : Option Nat :=
  if e.2.type = .data ∧ e.2.data ≠ [] then some (e.1 + e.2.offset.toNat) else none

/-- The address that a record says to start at. -/
def startAddress (e : Nat × Record) : Option Nat :=
  match e.2.type with
  | .startSegment => some (bigEndian (e.2.data.take 2) * 16 + bigEndian (e.2.data.drop 2))
  | .startLinear => some (bigEndian e.2.data)
  | _ => none

/-- Write one byte; no address of the memory is 65536 or more. -/
def put (mem : Memory) (w : UInt8 × Nat) : Memory :=
  fun addr => if addr.toNat = w.2 then w.1 else mem addr

/-- The memory that records leave. -/
def stored (rs : List Record) (mem : Memory) : Memory :=
  ((based 0 rs).flatMap stores).foldl put mem

/-- The entry that records name: the last start address, else the lowest data, else 0. -/
def entryOf (rs : List Record) : UInt16 :=
  UInt16.ofNat <| (((based 0 rs).filterMap startAddress).getLast?.or
    ((based 0 rs).filterMap dataStart).min?).getD 0

/-! ## Reading -/

theorem printed_cons {digits : Str} {b : UInt8} {bs : List UInt8}
    (h : digits.map capital = (b :: bs).flatMap hexByte) :
    ∃ x y rest, digits = x :: y :: rest ∧ [x, y].map capital = hexByte b ∧
      rest.map capital = bs.flatMap hexByte := by
  have hlength : (hexByte b).length = 2 := hexPadded_length (by decide) b.toNat_lt
  rw [List.flatMap_cons] at h
  obtain ⟨pair, rest, rfl, hpair, hrest⟩ := List.map_eq_append_iff.mp h
  have htwo : pair.length = 2 := by rw [← hlength, ← hpair, List.length_map]
  obtain ⟨x, y, rfl⟩ := List.length_eq_two.mp htwo
  exact ⟨x, y, rest, rfl, hpair, hrest⟩

theorem printed_length {digits : Str} {bs : List UInt8}
    (h : digits.map capital = bs.flatMap hexByte) : digits.length = 2 * bs.length := by
  induction bs generalizing digits with
  | nil => rw [List.map_eq_nil_iff.mp h]; rfl
  | cons b bs ih =>
    obtain ⟨x, y, rest, rfl, -, hrest⟩ := printed_cons h
    rw [List.length_cons, List.length_cons, ih hrest, List.length_cons]
    omega

/-- The digits of a byte inside of a record. -/
theorem printed_pair {digits : Str} {bs : List UInt8} (h : digits.map capital = bs.flatMap hexByte)
    {i : Nat} {b : UInt8} (hb : bs[i]? = some b) :
    ((digits.drop (2 * i)).take 2).map capital = hexByte b := by
  induction i generalizing digits bs with
  | zero =>
    obtain ⟨bs', rfl⟩ : ∃ bs', bs = b :: bs' := by
      cases bs with
      | nil => cases hb
      | cons b' bs' => exact ⟨bs', by rw [Option.some.inj hb]⟩
    obtain ⟨x, y, rest, rfl, hpair, -⟩ := printed_cons h
    exact hpair
  | succ i ih =>
    cases bs with
    | nil => cases hb
    | cons b' bs =>
      obtain ⟨x, y, rest, rfl, -, hrest⟩ := printed_cons h
      exact ih hrest hb

/-- **A byte reads back.** -/
theorem hex2_printed {digits : Str} {bs : List UInt8} (h : digits.map capital = bs.flatMap hexByte)
    {i : Nat} {b : UInt8} (hb : bs[i]? = some b) : hex2 (58 :: digits) (1 + 2 * i) = some b := by
  have hlt : i < bs.length := (List.getElem?_eq_some_iff.mp hb).1
  have hlength := printed_length h
  have hread : stoul ((digits.drop (2 * i)).take 2) 16 = some b.toNat :=
    stoul_printed (printed_pair h hb) (Nat.lt_trans b.toNat_lt (by decide))
  have hinside : 1 + 2 * i ≤ (58 :: digits).length := by
    rw [List.length_cons]
    omega
  rw [hex2, substr_of_le hinside, Nat.add_comm 1, List.drop_succ_cons, Option.bind_some, hread,
    Option.map_some, UInt8.ofNat_toNat]

/-- A word of two bytes. -/
theorem word_toNat (a b : UInt8) : ((a.toUInt16 <<< 8) ||| b.toUInt16).toNat = bigEndian [a, b] := by
  have ha := a.toNat_lt
  have hb := b.toNat_lt
  rw [UInt16.toNat_or, UInt16.toNat_shiftLeft, UInt8.toNat_toUInt16, UInt8.toNat_toUInt16]
  show (a.toNat <<< 8) % 2 ^ 16 ||| b.toNat = 256 * (256 * 0 + a.toNat) + b.toNat
  rw [Nat.mod_eq_of_lt (by rw [Nat.shiftLeft_eq]; omega), ← Nat.shiftLeft_add_eq_or_of_lt (by omega),
    Nat.shiftLeft_eq]
  omega

theorem ofNat_bigEndian (a b : UInt8) :
    (UInt16.ofNat (bigEndian [a, b])).toNat = bigEndian [a, b] := by
  rw [← word_toNat, UInt16.ofNat_toNat]

theorem hex4_printed {digits : Str} {bs : List UInt8} (h : digits.map capital = bs.flatMap hexByte)
    {i : Nat} {a b : UInt8} (ha : bs[i]? = some a) (hb : bs[i + 1]? = some b) :
    hex4 (58 :: digits) (1 + 2 * i) = some (UInt16.ofNat (bigEndian [a, b])) := by
  have hpos : 1 + 2 * i + 2 = 1 + 2 * (i + 1) := by omega
  rw [hex4, hex2_printed h ha, hpos, hex2_printed h hb, ← word_toNat, UInt16.ofNat_toNat]
  rfl

/-! ## One record -/

/-- The bytes as they stand in the text of a record. -/
def Record.bytes (r : Record) : List UInt8 :=
  recordBytes r.type r.offset r.data ++ [r.checksum]

theorem Record.hex2_eq (r : Record) {i : Nat} {b : UInt8} (hb : r.bytes[i]? = some b) :
    hex2 r.text (1 + 2 * i) = some b := hex2_printed r.printed hb

theorem Record.hex4_eq (r : Record) {i : Nat} {a b : UInt8} (ha : r.bytes[i]? = some a)
    (hb : r.bytes[i + 1]? = some b) :
    hex4 r.text (1 + 2 * i) = some (UInt16.ofNat (bigEndian [a, b])) := hex4_printed r.printed ha hb

/-- Where the data of a record is read from. -/
theorem Record.data_getElem? {r : Record} {i : Nat} {b : UInt8} (hb : r.data[i]? = some b) :
    r.bytes[4 + i]? = some b := by
  have hlt : i < r.data.length := (List.getElem?_eq_some_iff.mp hb).1
  rw [Nat.add_comm]
  show (r.data ++ [r.checksum])[i]? = some b
  rw [List.getElem?_append_left hlt, hb]

theorem Record.count_toNat (r : Record) : (UInt8.ofNat r.data.length).toNat = r.data.length := by
  rw [UInt8.toNat_ofNat']
  exact Nat.mod_eq_of_lt r.length_lt

theorem Record.text_length (r : Record) : r.text.length = 11 + 2 * r.data.length := by
  rw [text, List.length_cons, printed_length r.printed, List.length_append, recordBytes,
    List.length_append]
  show 2 * (4 + r.data.length + 1) + 1 = _
  omega

theorem bigEndian_word (v : UInt16) : bigEndian [(v >>> 8).toUInt8, v.toUInt8] = v.toNat := by
  have hv := v.toNat_lt
  show 256 * (256 * 0 + (v >>> 8).toUInt8.toNat) + v.toUInt8.toNat = v.toNat
  rw [UInt16.toNat_toUInt8, UInt16.toNat_toUInt8, UInt16.toNat_shiftRight]
  show 256 * (256 * 0 + v.toNat >>> 8 % 2 ^ 8) + v.toNat % 2 ^ 8 = v.toNat
  rw [Nat.shiftRight_eq_div_pow]
  omega

/-- **The header of a record** is read back. -/
theorem Record.header_eq (r : Record) :
    header r.text = some (UInt8.ofNat r.data.length, r.offset, r.type.code) := by
  have hlength := r.text_length
  have hoffset : hex4 r.text 3 = some r.offset := by
    have hread := r.hex4_eq (i := 1) rfl rfl
    rwa [bigEndian_word, UInt16.ofNat_toNat] at hread
  rw [header, if_neg (by rw [not_or]; exact ⟨fun h => h rfl, by omega⟩),
    show hex2 r.text 1 = some _ from r.hex2_eq (i := 0) rfl, hoffset,
    show hex2 r.text 7 = some _ from r.hex2_eq (i := 3) rfl]
  show (if r.text.length < 11 + (UInt8.ofNat r.data.length).toNat * 2 then none else _) = _
  rw [r.count_toNat, if_neg (by omega)]

/-- One byte of the loop is put where it belongs. -/
theorem put_eq (mem : Memory) (b : UInt8) (dest : Nat) :
    (if dest < memorySize then fun addr => if addr = UInt16.ofNat dest then b else mem addr
      else mem) = put mem (b, dest) := by
  funext addr
  have haddr : addr.toNat < 65536 := addr.toNat_lt
  unfold put
  by_cases hdest : dest < memorySize
  · have hiff : addr = UInt16.ofNat dest ↔ addr.toNat = dest := by
      rw [← UInt16.toNat_inj, UInt16.toNat_ofNat', Nat.mod_eq_of_lt (show dest < 2 ^ 16 from hdest)]
    rw [if_pos hdest]
    simp only [hiff]
  · have hne : addr.toNat ≠ dest := by
      intro heq
      rw [heq] at haddr
      exact hdest haddr
    rw [if_neg hdest, if_neg hne]

/-- **The inner loop** stores the data, one byte behind the other. -/
theorem Record.storeBytes_eq (r : Record) {base : UInt32} (hbase : base.toNat + 65536 ≤ 2 ^ 32)
    {i : Nat} {data : List UInt8} (hdata : r.data.drop i = data) (mem : Memory) :
    storeBytes r.text base data.length i mem = (data.zipIdx (base.toNat + i)).foldl put mem := by
  induction data generalizing i mem with
  | nil => rfl
  | cons b data ih =>
    have hget : r.data[i]? = some b := by
      have hhead : (r.data.drop i)[0]? = r.data[i + 0]? := List.getElem?_drop
      rw [hdata, Nat.add_zero] at hhead
      exact hhead.symm
    have hlt : i < r.data.length := (List.getElem?_eq_some_iff.mp hget).1
    have hsmall := r.length_lt
    have hread : hex2 r.text (9 + i * 2) = some b := by
      have hpos : 9 + i * 2 = 1 + 2 * (4 + i) := by omega
      rw [hpos]
      exact r.hex2_eq (r.data_getElem? hget)
    -- the base is low enough for the address not to wrap
    have hdest : (base + UInt32.ofNat i).toNat = base.toNat + i := by
      rw [UInt32.toNat_add, UInt32.toNat_ofNat', Nat.mod_eq_of_lt (show i < 2 ^ 32 by omega)]
      exact Nat.mod_eq_of_lt (by omega)
    have hrest : r.data.drop (i + 1) = data := by
      rw [← List.drop_drop, hdata, List.drop_succ_cons, List.drop_zero]
    rw [List.length_cons, storeBytes, hread]
    dsimp only
    rw [put_eq, hdest, ih hrest, List.zipIdx_cons, List.foldl_cons, Nat.add_assoc]

/-- What a record does to the variables of the loop. -/
structure Applied (e : Nat × Record) (s t : Load) : Prop where
  mem : t.mem = (stores e).foldl put s.mem
  base : t.upperBase.toNat = nextBase e.1 e.2
  lowest : t.lowestDataAddr.toNat = (dataStart e).elim s.lowestDataAddr.toNat (min s.lowestDataAddr.toNat)
  entry : t.explicitEntry.map UInt32.toNat = (startAddress e).or (s.explicitEntry.map UInt32.toNat)

/-- A word moved up. -/
theorem shift_toNat (v : UInt16) {k : UInt32} (hk : k.toNat ≤ 16) :
    (v.toUInt32 <<< k).toNat = v.toNat * 2 ^ k.toNat := by
  have hv := v.toNat_lt
  have hpow : 2 ^ k.toNat ≤ 2 ^ 16 := Nat.pow_le_pow_right (by decide) hk
  have hprod : v.toNat * 2 ^ k.toNat < 2 ^ 32 :=
    Nat.lt_of_lt_of_le (Nat.mul_lt_mul_of_lt_of_le hv hpow (by decide)) (by decide)
  rw [UInt32.toNat_shiftLeft, UInt16.toNat_toUInt32, Nat.shiftLeft_eq,
    Nat.mod_eq_of_lt (show k.toNat < 32 by omega), Nat.mod_eq_of_lt hprod]

/-- Four bytes put together. -/
theorem doubleWord_toNat (a b c d : UInt8) :
    ((a.toUInt32 <<< 24) ||| (b.toUInt32 <<< 16) ||| (c.toUInt32 <<< 8) ||| d.toUInt32).toNat
      = bigEndian [a, b, c, d] := by
  have ha := a.toNat_lt
  have hb := b.toNat_lt
  have hc := c.toNat_lt
  have hd := d.toNat_lt
  have hor : ∀ (k x y : Nat), y < 2 ^ k → x * 2 ^ k ||| y = x * 2 ^ k + y := by
    intro k x y hy
    rw [Nat.mul_comm, ← Nat.two_pow_add_eq_or_of_lt hy]
  have hshift : ∀ (x : UInt8) (k : Nat), k ≤ 24 → x.toNat <<< k % 2 ^ 32 = x.toNat * 2 ^ k := by
    intro x k hk
    have hx := x.toNat_lt
    have hpow : 2 ^ k ≤ 2 ^ 24 := Nat.pow_le_pow_right (by decide) hk
    have hprod : x.toNat * 2 ^ k < 2 ^ 32 :=
      Nat.lt_of_lt_of_le (Nat.mul_lt_mul_of_lt_of_le hx hpow (by decide)) (by decide)
    rw [Nat.shiftLeft_eq, Nat.mod_eq_of_lt hprod]
  simp only [UInt32.toNat_or, UInt32.toNat_shiftLeft, UInt8.toNat_toUInt32]
  show a.toNat <<< 24 % 2 ^ 32 ||| b.toNat <<< 16 % 2 ^ 32 ||| c.toNat <<< 8 % 2 ^ 32 ||| d.toNat
    = 256 * (256 * (256 * (256 * 0 + a.toNat) + b.toNat) + c.toNat) + d.toNat
  rw [hshift a 24 (by decide), hshift b 16 (by decide), hshift c 8 (by decide),
    hor 24 _ _ (by omega),
    show a.toNat * 2 ^ 24 + b.toNat * 2 ^ 16 = (a.toNat * 2 ^ 8 + b.toNat) * 2 ^ 16 by omega,
    hor 16 _ _ (by omega),
    show (a.toNat * 2 ^ 8 + b.toNat) * 2 ^ 16 + c.toNat * 2 ^ 8
      = ((a.toNat * 2 ^ 8 + b.toNat) * 2 ^ 8 + c.toNat) * 2 ^ 8 by omega,
    hor 8 _ _ (by omega)]
  omega

/-- **A record of data.** -/
theorem Record.applied_data {r : Record} (htype : r.type = .data) {s : Load}
    (hs : s.upperBase.toNat ≤ 0xFFFE0000) :
    Applied (s.upperBase.toNat, r) s (record r.text (UInt8.ofNat r.data.length) r.offset 0 s) := by
  have hoffset := r.offset.toNat_lt
  have hlength := r.length_lt
  have hcount := r.count_toNat
  have hbase : (s.upperBase + r.offset.toUInt32).toNat = s.upperBase.toNat + r.offset.toNat := by
    rw [UInt32.toNat_add, UInt16.toNat_toUInt32]
    exact Nat.mod_eq_of_lt (by omega)
  rw [record, if_pos rfl]
  constructor
  · show storeBytes _ _ (UInt8.ofNat r.data.length).toNat 0 s.mem = _
    rw [hcount, stores, if_pos htype]
    exact (r.storeBytes_eq (by omega) List.drop_zero s.mem).trans (by rw [hbase]; rfl)
  · show s.upperBase.toNat = _
    rw [nextBase, htype]
  · show UInt32.toNat (if _ then _ else _) = _
    by_cases hempty : r.data = []
    · rw [if_neg (by rw [hempty]; exact fun h => absurd h.1 (by decide)), dataStart,
        if_neg (fun h => h.2 hempty)]
      rfl
    · have hpos : 0 < r.data.length := List.length_pos_of_ne_nil hempty
      have hcountPos : UInt8.ofNat r.data.length > 0 := by
        rw [gt_iff_lt, UInt8.lt_iff_toNat_lt, hcount]
        exact hpos
      have hstart : dataStart (s.upperBase.toNat, r)
          = some (s.upperBase + r.offset.toUInt32).toNat := by
        rw [hbase]
        exact if_pos ⟨htype, hempty⟩
      rw [hstart, Option.elim_some]
      by_cases hlow : s.upperBase + r.offset.toUInt32 < s.lowestDataAddr
      · rw [if_pos ⟨hcountPos, hlow⟩]
        exact (Nat.min_eq_right (Nat.le_of_lt (UInt32.lt_iff_toNat_lt.mp hlow))).symm
      · rw [if_neg (fun h => hlow h.2)]
        exact (Nat.min_eq_left (Nat.le_of_not_lt fun h => hlow (UInt32.lt_iff_toNat_lt.mpr h))).symm
  · show s.explicitEntry.map UInt32.toNat = _
    rw [startAddress, htype]
    rfl

/-- A record without data only changes the base or the entry. -/
theorem applied_of_no_data {r : Record} (hdata : r.type ≠ .data) {s t : Load} (hmem : t.mem = s.mem)
    (hbase : t.upperBase.toNat = nextBase s.upperBase.toNat r)
    (hlowest : t.lowestDataAddr = s.lowestDataAddr)
    (hentry : t.explicitEntry.map UInt32.toNat
      = (startAddress (s.upperBase.toNat, r)).or (s.explicitEntry.map UInt32.toNat)) :
    Applied (s.upperBase.toNat, r) s t := by
  constructor
  · rw [stores, if_neg hdata]
    exact hmem
  · exact hbase
  · rw [dataStart, if_neg fun h => hdata h.1, hlowest]
    rfl
  · exact hentry

/-- **A record that sets a base.** -/
theorem Record.applied_base {r : Record} {shift : UInt32}
    (htype : (r.type = .extendedSegment ∧ shift = 4) ∨ (r.type = .extendedLinear ∧ shift = 16))
    (s : Load) :
    Applied (s.upperBase.toNat, r) s (record r.text (UInt8.ofNat r.data.length) r.offset r.type.code s) := by
  have hlength : r.data.length = 2 := by
    have hfits := r.fits
    rcases htype with ⟨htype, -⟩ | ⟨htype, -⟩
    · rw [htype] at hfits
      exact hfits
    · rw [htype] at hfits
      exact hfits.1
  obtain ⟨a, b, hdata⟩ := List.length_eq_two.mp hlength
  have hword : hex4 r.text 9 = some (UInt16.ofNat (bigEndian r.data)) := by
    rw [hdata]
    refine r.hex4_eq (i := 4) ?_ ?_
    · exact r.data_getElem? (i := 0) (by rw [hdata]; rfl)
    · exact r.data_getElem? (i := 1) (by rw [hdata]; rfl)
  have hvalue : (UInt16.ofNat (bigEndian r.data)).toNat = bigEndian r.data := by
    rw [hdata, ofNat_bigEndian]
  have hbase : ((UInt16.ofNat (bigEndian r.data)).toUInt32 <<< shift).toNat
      = bigEndian r.data * 2 ^ shift.toNat := by
    have hshift : shift.toNat ≤ 16 := by
      rcases htype with ⟨-, rfl⟩ | ⟨-, rfl⟩ <;> decide
    rw [shift_toNat _ hshift, hvalue]
  have hrecord : record r.text (UInt8.ofNat r.data.length) r.offset r.type.code s
      = { s with upperBase := (UInt16.ofNat (bigEndian r.data)).toUInt32 <<< shift } := by
    rw [hlength]
    rcases htype with ⟨htype, rfl⟩ | ⟨htype, rfl⟩
    · rw [htype, record, if_neg (by decide), if_pos (by decide), hword]
    · rw [htype, record, if_neg (by decide), if_neg (by decide), if_pos (by decide), hword]
  have hdataless : r.type ≠ .data := by
    rcases htype with ⟨htype, -⟩ | ⟨htype, -⟩ <;> rw [htype] <;> decide
  rw [hrecord]
  refine applied_of_no_data hdataless rfl ?_ rfl ?_
  · rcases htype with ⟨htype, rfl⟩ | ⟨htype, rfl⟩
    · rw [nextBase, htype]
      exact hbase.trans (congrArg (bigEndian r.data * ·) (by decide))
    · rw [nextBase, htype]
      exact hbase.trans (congrArg (bigEndian r.data * ·) (by decide))
  · rw [startAddress]
    rcases htype with ⟨htype, -⟩ | ⟨htype, -⟩ <;> rw [htype] <;> rfl

/-- The data of a start record is four bytes, each where it is read from. -/
theorem Record.four_bytes {r : Record} (hlength : r.data.length = 4) :
    ∃ a b c d, r.data = [a, b, c, d] ∧
      ∀ (i : Nat) x, [a, b, c, d][i]? = some x → r.bytes[4 + i]? = some x := by
  obtain ⟨a, rest, hrest⟩ := List.exists_cons_of_length_eq_add_one hlength
  rw [hrest] at hlength
  obtain ⟨b, c, d, rfl⟩ := List.length_eq_three.mp (Nat.succ.inj hlength)
  exact ⟨a, b, c, d, hrest, fun i x hx => r.data_getElem? (by rw [hrest]; exact hx)⟩

/-- CS and IP make an address of 20 bits. -/
theorem Record.startSegment_eq {r : Record} (htype : r.type = .startSegment) (base : Nat) (s : Load) :
    ∃ v, startAddress (base, r) = some v.toNat ∧
      record r.text (UInt8.ofNat r.data.length) r.offset r.type.code s
        = { s with explicitEntry := some v } := by
  have hlength : r.data.length = 4 := by
    have hfits := r.fits
    rw [htype] at hfits
    exact hfits
  obtain ⟨a, b, c, d, hdata, hbyte⟩ := r.four_bytes hlength
  have hcs : hex4 r.text 9 = some _ := r.hex4_eq (i := 4) (hbyte 0 a rfl) (hbyte 1 b rfl)
  have hip : hex4 r.text 13 = some _ := r.hex4_eq (i := 6) (hbyte 2 c rfl) (hbyte 3 d rfl)
  refine ⟨((UInt16.ofNat (bigEndian [a, b])).toUInt32 <<< 4) +
    (UInt16.ofNat (bigEndian [c, d])).toUInt32, ?_, ?_⟩
  · have hhigh := (UInt16.ofNat (bigEndian [a, b])).toNat_lt
    have hlow := (UInt16.ofNat (bigEndian [c, d])).toNat_lt
    rw [startAddress, htype, UInt32.toNat_add, UInt16.toNat_toUInt32, shift_toNat _ (by decide),
      hdata]
    -- an address of 20 bits: the sum does not wrap
    show some _ = some (_ % 2 ^ 32)
    rw [Nat.mod_eq_of_lt (by show _ * 2 ^ 4 + _ < _; omega), ofNat_bigEndian, ofNat_bigEndian]
    rfl
  · rw [hlength, htype, record, if_neg (by decide), if_neg (by decide), if_neg (by decide),
      if_pos (by decide), hcs, hip]

/-- EIP is an address of 32 bits. -/
theorem Record.startLinear_eq {r : Record} (htype : r.type = .startLinear) (base : Nat) (s : Load) :
    ∃ v, startAddress (base, r) = some v.toNat ∧
      record r.text (UInt8.ofNat r.data.length) r.offset r.type.code s
        = { s with explicitEntry := some v } := by
  have hlength : r.data.length = 4 := by
    have hfits := r.fits
    rw [htype] at hfits
    exact hfits
  obtain ⟨a, b, c, d, hdata, hbyte⟩ := r.four_bytes hlength
  have h0 : hex2 r.text 9 = some a := r.hex2_eq (i := 4) (hbyte 0 a rfl)
  have h1 : hex2 r.text 11 = some b := r.hex2_eq (i := 5) (hbyte 1 b rfl)
  have h2 : hex2 r.text 13 = some c := r.hex2_eq (i := 6) (hbyte 2 c rfl)
  have h3 : hex2 r.text 15 = some d := r.hex2_eq (i := 7) (hbyte 3 d rfl)
  refine ⟨(a.toUInt32 <<< 24) ||| (b.toUInt32 <<< 16) ||| (c.toUInt32 <<< 8) ||| d.toUInt32, ?_, ?_⟩
  · rw [startAddress, htype, doubleWord_toNat, hdata]
  · rw [hlength, htype, record, if_neg (by decide), if_neg (by decide), if_neg (by decide),
      if_neg (by decide), if_pos (by decide), h0, h1, h2, h3]

/-- **A record that names an entry.** -/
theorem Record.applied_entry {r : Record} (htype : r.type = .startSegment ∨ r.type = .startLinear)
    (s : Load) :
    Applied (s.upperBase.toNat, r) s
      (record r.text (UInt8.ofNat r.data.length) r.offset r.type.code s) := by
  have hdataless : r.type ≠ .data := by
    rcases htype with htype | htype <;> rw [htype] <;> decide
  have hentry : ∃ v, startAddress (s.upperBase.toNat, r) = some v.toNat ∧
      record r.text (UInt8.ofNat r.data.length) r.offset r.type.code s
        = { s with explicitEntry := some v } := by
    rcases htype with htype | htype
    · exact Record.startSegment_eq htype _ s
    · exact Record.startLinear_eq htype _ s
  obtain ⟨v, hstart, hrecord⟩ := hentry
  rw [hrecord]
  refine applied_of_no_data hdataless rfl ?_ rfl ?_
  · rw [nextBase]
    rcases htype with htype | htype <;> rw [htype]
  · rw [hstart]
    rfl

/-- The base stays below the last 64 KB of 32 bits, so that no address wraps. -/
theorem nextBase_le (r : Record) {base : Nat} (hbase : base ≤ 0xFFFE0000) :
    nextBase base r ≤ 0xFFFE0000 := by
  have hfits := r.fits
  unfold nextBase
  cases htype : r.type with
  | data | endOfFile | startSegment | startLinear => exact hbase
  | extendedSegment =>
    rw [htype] at hfits
    obtain ⟨a, b, hdata⟩ := List.length_eq_two.mp hfits
    have hword : bigEndian r.data < 65536 := by
      rw [hdata, ← word_toNat]
      exact UInt16.toNat_lt _
    show bigEndian r.data * 16 ≤ _
    omega
  | extendedLinear =>
    rw [htype] at hfits
    have hword : bigEndian r.data < 0xFFFF := hfits.2
    show bigEndian r.data * 65536 ≤ _
    omega

/-- **The step lemma**: every record but the last one does what it means. -/
theorem Record.applied (r : Record) (hend : r.type ≠ .endOfFile) {s : Load}
    (hs : s.upperBase.toNat ≤ 0xFFFE0000) :
    Applied (s.upperBase.toNat, r) s
      (record r.text (UInt8.ofNat r.data.length) r.offset r.type.code s) := by
  cases htype : r.type with
  | data => exact Record.applied_data htype hs
  | endOfFile => exact absurd htype hend
  | extendedSegment =>
    have happlied := Record.applied_base (Or.inl ⟨htype, rfl⟩) s
    rwa [htype] at happlied
  | extendedLinear =>
    have happlied := Record.applied_base (Or.inr ⟨htype, rfl⟩) s
    rwa [htype] at happlied
  | startSegment =>
    have happlied := Record.applied_entry (Or.inl htype) s
    rwa [htype] at happlied
  | startLinear =>
    have happlied := Record.applied_entry (Or.inr htype) s
    rwa [htype] at happlied

/-! ## The loop -/

theorem loadLines_record (r : Record) (lines : List Str) (s : Load) :
    loadLines (r.text :: lines) s =
      if r.type = .endOfFile then s
      else loadLines lines (record r.text (UInt8.ofNat r.data.length) r.offset r.type.code s) := by
  have hcode : r.type.code = 1 ↔ r.type = .endOfFile := by
    cases r.type <;> decide
  rw [loadLines, r.header_eq]
  dsimp only
  simp only [hcode]

theorem loadLines_other {text : Str} (h : text.head? ≠ some 58) (lines : List Str) (s : Load) :
    loadLines (text :: lines) s = loadLines lines s := by
  rw [loadLines, header, if_pos (Or.inl h)]

/-- **The run lemma**: the loop does what the records behind it mean. -/
theorem loadLines_records (lines : List Line) {s : Load} (hs : s.upperBase.toNat ≤ 0xFFFE0000) :
    (loadLines (lines.map Line.text) s).mem
        = ((based s.upperBase.toNat (lines.filterMap Line.record?)).flatMap stores).foldl put s.mem ∧
      (loadLines (lines.map Line.text) s).lowestDataAddr.toNat
        = ((based s.upperBase.toNat (lines.filterMap Line.record?)).filterMap dataStart).foldl min
          s.lowestDataAddr.toNat ∧
      (loadLines (lines.map Line.text) s).explicitEntry.map UInt32.toNat
        = ((based s.upperBase.toNat (lines.filterMap Line.record?)).filterMap startAddress).getLast?.or
          (s.explicitEntry.map UInt32.toNat) := by
  induction lines generalizing s with
  | nil => exact ⟨rfl, rfl, rfl⟩
  | cons line lines ih =>
    cases line with
    | other text h =>
      rw [List.map_cons, show Line.text (.other text h) = text from rfl, loadLines_other h]
      exact ih hs
    | record r =>
      rw [List.map_cons, show Line.text (.record r) = r.text from rfl, loadLines_record,
        List.filterMap_cons_some (show Line.record? (.record r) = some r from rfl), based]
      by_cases hend : r.type = .endOfFile
      · rw [if_pos hend, if_pos hend]
        exact ⟨rfl, rfl, rfl⟩
      · have happlied := r.applied hend hs
        rw [if_neg hend, if_neg hend]
        generalize record r.text (UInt8.ofNat r.data.length) r.offset r.type.code s = t at happlied ⊢
        have hbase : t.upperBase.toNat = nextBase s.upperBase.toNat r := happlied.base
        obtain ⟨hmem, hlowest, hentry⟩ := ih (s := t) (by rw [hbase]; exact nextBase_le r hs)
        rw [hbase] at hmem hlowest hentry
        refine ⟨?_, ?_, ?_⟩
        · rw [hmem, happlied.mem, List.flatMap_cons, List.foldl_append]
        · rw [hlowest, happlied.lowest]
          cases hstart : dataStart (s.upperBase.toNat, r) with
          | none => rw [List.filterMap_cons_none hstart]; rfl
          | some a => rw [List.filterMap_cons_some hstart, List.foldl_cons]; rfl
        · rw [hentry, happlied.entry]
          cases hstart : startAddress (s.upperBase.toNat, r) with
          | none => rw [List.filterMap_cons_none hstart, Option.none_or]
          | some a =>
            rw [List.filterMap_cons_some hstart, List.getLast?_cons, Option.some_or]
            cases (List.filterMap startAddress _).getLast? <;> rfl

/-- Where data starts is below the mark that stands for none. -/
theorem dataStart_lt {base : Nat} (hbase : base ≤ 0xFFFE0000) (rs : List Record) :
    ∀ a ∈ (based base rs).filterMap dataStart, a < 0xFFFFFFFF := by
  induction rs generalizing base with
  | nil => intro a ha; cases ha
  | cons r rs ih =>
    intro a ha
    rw [based] at ha
    split at ha
    · cases ha
    · obtain ⟨e, he, hstart⟩ := List.mem_filterMap.mp ha
      rcases List.mem_cons.mp he with rfl | he
      · have hoffset := r.offset.toNat_lt
        unfold dataStart at hstart
        split at hstart
        · have heq : base + r.offset.toNat = a := Option.some.inj hstart
          omega
        · cases hstart
      · exact ih (nextBase_le r hbase) a (List.mem_filterMap.mpr ⟨e, he, hstart⟩)

/-- The lowest address and the mark for none. -/
theorem foldl_min_mark {l : List Nat} (hl : ∀ a ∈ l, a < 0xFFFFFFFF) :
    l.foldl min 0xFFFFFFFF = l.min?.getD 0xFFFFFFFF ∧ ∀ a ∈ l.min?, a < 0xFFFFFFFF := by
  cases l with
  | nil => exact ⟨rfl, fun a ha => by cases ha⟩
  | cons a l =>
    have ha : a < 0xFFFFFFFF := hl a List.mem_cons_self
    constructor
    · rw [List.foldl_cons, Nat.min_eq_right (Nat.le_of_lt ha), List.min?_cons', Option.getD_some]
    · intro b hb
      exact hl b (List.min?_mem hb)

/-- **What a file of well-formed records loads.**  The memory is left as the records store it, and
    the entry is the one that they name. -/
theorem load_records {content : Str} {lines : List Line}
    (h : getLines content = lines.map Line.text) (mem : Memory) :
    (load content mem).mem = stored (lines.filterMap Line.record?) mem ∧
      (load content mem).entry = entryOf (lines.filterMap Line.record?) := by
  have hzero : (0 : UInt32).toNat ≤ 0xFFFE0000 := by decide
  obtain ⟨hmem, hlowest, hentry⟩ := loadLines_records lines (s := { mem := mem }) hzero
  rw [← h] at hmem hlowest hentry
  refine ⟨hmem, ?_⟩
  obtain ⟨hmark, hbelow⟩ := foldl_min_mark (dataStart_lt (show 0 ≤ 0xFFFE0000 by decide)
    (lines.filterMap Line.record?))
  have hlow : (load content mem).lowestDataAddr.toNat
      = ((based 0 (lines.filterMap Line.record?)).filterMap dataStart).min?.getD 0xFFFFFFFF :=
    hlowest.trans hmark
  have hstart : (load content mem).explicitEntry.map UInt32.toNat
      = ((based 0 (lines.filterMap Line.record?)).filterMap startAddress).getLast? :=
    hentry.trans (Option.or_none)
  rw [Load.entry, entryOf, ← hstart]
  cases (load content mem).explicitEntry with
  | some entry =>
    show entry.toUInt16 = UInt16.ofNat entry.toNat
    rw [← UInt16.toNat_inj, UInt32.toNat_toUInt16, UInt16.toNat_ofNat']
  | none =>
    dsimp only [Option.map_none, Option.none_or]
    cases hmin : ((based 0 (lines.filterMap Line.record?)).filterMap dataStart).min? with
    | none =>
      rw [hmin, Option.getD_none] at hlow
      rw [if_neg (by rw [not_not, ← UInt32.toNat_inj]; exact hlow)]
      rfl
    | some a =>
      rw [hmin, Option.getD_some] at hlow
      have ha := hbelow a hmin
      rw [if_pos (by rw [ne_eq, ← UInt32.toNat_inj, hlow]; exact Nat.ne_of_lt ha),
        Option.getD_some, ← UInt16.toNat_inj, UInt32.toNat_toUInt16, UInt16.toNat_ofNat', hlow]

/-! ### A file with an entry -/

/-- `JP 0105` at `0100`, in small letters. -/
def jumpRecord : Record where
  type := .data
  offset := 0x100
  data := [0xC3, 0x05, 0x01]
  checksum := 0x33
  digits := str "03010000c3050133"
  length_lt := by decide
  fits := by
    show UInt16.toNat 0x100 + 3 ≤ 65536
    decide
  checked := by decide
  printed := by decide +kernel

/-- An entry of `1000:0100`. -/
def entryRecord : Record where
  type := .startSegment
  offset := 0
  data := [0x10, 0x00, 0x01, 0x00]
  checksum := 0xE8
  digits := str "0400000310000100E8"
  length_lt := by decide
  fits := rfl
  checked := by decide
  printed := by decide +kernel

def endRecord : Record where
  type := .endOfFile
  offset := 0
  data := []
  checksum := 0xFF
  digits := str "00000001FF"
  length_lt := by decide
  fits := trivial
  checked := by decide
  printed := by decide +kernel

theorem load_records_jump :
    (load (str ":03010000c3050133\n; entry\n:0400000310000100E8\n:00000001FF\n") fun _ => 0).mem
        = stored [jumpRecord, entryRecord, endRecord] (fun _ => 0) ∧
      (load (str ":03010000c3050133\n; entry\n:0400000310000100E8\n:00000001FF\n") fun _ => 0).entry
        = 0x100 := by
  have hlines : getLines (str ":03010000c3050133\n; entry\n:0400000310000100E8\n:00000001FF\n")
      = [Line.record jumpRecord, .other (str "; entry") (by decide), .record entryRecord,
          .record endRecord].map Line.text := by decide +kernel
  obtain ⟨hmem, hentry⟩ := load_records hlines fun _ => 0
  exact ⟨hmem, hentry.trans (by decide +kernel)⟩

/-! ## Records that are not well formed -/

/-- A line that is too short, or one of whose numbers cannot be read: in front of the data, or in
    the data that sets a base or an entry. -/
def Rejected (line : Str) : Prop :=
  line.length < 11 ∨ hex2 line 1 = none ∨ hex4 line 3 = none ∨ hex2 line 7 = none ∨
    (∃ count, hex2 line 1 = some count ∧ line.length < 11 + count.toNat * 2) ∨
    ((hex2 line 7 = some 2 ∨ hex2 line 7 = some 4) ∧ hex4 line 9 = none) ∨
    (hex2 line 7 = some 3 ∧ (hex4 line 9 = none ∨ hex4 line 13 = none)) ∨
    (hex2 line 7 = some 5 ∧ ∃ pos ∈ [9, 11, 13, 15], hex2 line pos = none)

/-- Two lines of one length that differ behind the data alone. -/
def SameData (line line' : Str) : Prop :=
  line.length = line'.length ∧ line.take 9 = line'.take 9 ∧
    ∀ count, hex2 line 1 = some count →
      line.take (9 + 2 * count.toNat) = line'.take (9 + 2 * count.toNat)

/-- What a header is read from. -/
theorem header_eq_some {line : Str} {count : UInt8} {address : UInt16} {type : UInt8} :
    header line = some (count, address, type) ↔
      (line.head? = some 58 ∧ 11 + count.toNat * 2 ≤ line.length) ∧
        hex2 line 1 = some count ∧ hex4 line 3 = some address ∧ hex2 line 7 = some type := by
  unfold header
  by_cases hskip : line.head? ≠ some 58 ∨ line.length < 11
  · rw [if_pos hskip]
    constructor
    · intro h
      cases h
    · rintro ⟨⟨hcolon, hlength⟩, -⟩
      rcases hskip with hskip | hskip
      · exact absurd hcolon hskip
      · omega
  · obtain ⟨hcolon, hlength⟩ := not_or.mp hskip
    rw [if_neg hskip]
    simp only [Option.bind_eq_bind, Option.bind_eq_some_iff]
    constructor
    · rintro ⟨count', hcount, address', haddress, type', htype, h⟩
      split at h
      · cases h
      · rename_i hlong
        cases h
        exact ⟨⟨not_not.mp hcolon, Nat.le_of_not_lt hlong⟩, hcount, haddress, htype⟩
    · rintro ⟨⟨-, hlong⟩, hcount, haddress, htype⟩
      exact ⟨count, hcount, address, haddress, type, htype, if_neg (Nat.not_lt.mpr hlong)⟩

/-- What loads alike behind some lines loads alike. -/
theorem loadLines_append_congr {rest rest' : List Str}
    (h : ∀ s, loadLines rest s = loadLines rest' s) (pre : List Str) (s : Load) :
    loadLines (pre ++ rest) s = loadLines (pre ++ rest') s := by
  induction pre generalizing s with
  | nil => exact h s
  | cons line pre ih =>
    rw [List.cons_append, List.cons_append, loadLines, loadLines]
    cases header line with
    | none => exact ih s
    | some e =>
      dsimp only
      split
      · rfl
      · exact ih _

section
variable {line : Str} {count : UInt8} {address : UInt16} {s : Load}

/-- A record sets nothing if its numbers cannot be read. -/
theorem record_base_none (h : hex4 line 9 = none) {type : UInt8} (htype : type = 2 ∨ type = 4) :
    record line count address type s = s := by
  rcases htype with rfl | rfl
  · rw [record, if_neg (by decide), h]
    split
    · rfl
    · simp
  · rw [record, if_neg (by decide), if_neg (by simp), h]
    split
    · rfl
    · simp

theorem record_startSegment_none (h : hex4 line 9 = none ∨ hex4 line 13 = none) :
    record line count address 3 s = s := by
  rw [record, if_neg (by decide), if_neg (by simp), if_neg (by simp)]
  split
  · split
    · rename_i cs ip hcs hip
      rcases h with h | h
      · rw [h] at hcs
        cases hcs
      · rw [h] at hip
        cases hip
    · rfl
  · rw [if_neg (by simp)]

theorem record_startLinear_none (h : ∃ pos ∈ [9, 11, 13, 15], hex2 line pos = none) :
    record line count address 5 s = s := by
  obtain ⟨pos, hpos, hnone⟩ := h
  rw [record, if_neg (by decide), if_neg (by simp), if_neg (by simp), if_neg (by simp)]
  split
  · split
    · rename_i a b c d ha hb hc hd
      have hread : (hex2 line pos).isSome = true := by
        simp only [List.mem_cons, List.not_mem_nil, or_false] at hpos
        rcases hpos with rfl | rfl | rfl | rfl
        · exact Option.isSome_of_eq_some ha
        · exact Option.isSome_of_eq_some hb
        · exact Option.isSome_of_eq_some hc
        · exact Option.isSome_of_eq_some hd
      rw [hnone] at hread
      cases hread
    · rfl
  · rfl

end

/-- **A line that is rejected** changes nothing. -/
theorem loadLines_rejected {line : Str} (h : Rejected line) (rest : List Str) (s : Load) :
    loadLines (line :: rest) s = loadLines rest s := by
  rw [loadLines]
  cases hheader : header line with
  | none => rfl
  | some e =>
    obtain ⟨count, address, type⟩ := e
    obtain ⟨⟨-, hlong⟩, hcount, haddress, htype⟩ := header_eq_some.mp hheader
    -- the header is read, so it is the data of an address that is not
    have hsets : type ≠ 1 ∧ record line count address type s = s := by
      rcases h with h | h | h | h | ⟨count', hcount', h⟩ | ⟨htype', h⟩ | ⟨htype', h⟩ | ⟨htype', h⟩
      · omega
      · rw [h] at hcount
        cases hcount
      · rw [h] at haddress
        cases haddress
      · rw [h] at htype
        cases htype
      · rw [hcount'] at hcount
        cases hcount
        omega
      · rw [htype, Option.some_inj, Option.some_inj] at htype'
        refine ⟨?_, record_base_none h htype'⟩
        rcases htype' with rfl | rfl <;> decide
      · rw [htype] at htype'
        cases htype'
        exact ⟨by decide, record_startSegment_none h⟩
      · rw [htype] at htype'
        cases htype'
        exact ⟨by decide, record_startLinear_none h⟩
    dsimp only
    rw [if_neg hsets.1, hsets.2]

section
variable {line line' : Str} {n : Nat} (hlength : line.length = line'.length)
  (htake : line.take n = line'.take n)
include hlength htake

/-- What is read in front of position `n` does not depend on what stands behind it. -/
theorem hex2_congr {pos : Nat} (hpos : pos + 2 ≤ n) : hex2 line pos = hex2 line' pos := by
  have hcut : ∀ l : Str, (l.drop pos).take 2 = ((l.take n).drop pos).take 2 := by
    intro l
    rw [List.drop_take, List.take_take, Nat.min_eq_left (by omega)]
  rw [hex2, hex2, substr, substr, hlength, hcut line, hcut line', htake]

theorem hex4_congr {pos : Nat} (hpos : pos + 4 ≤ n) : hex4 line pos = hex4 line' pos := by
  rw [hex4, hex4, hex2_congr hlength htake (by omega), hex2_congr hlength htake (by omega)]

theorem storeBytes_congr {base : UInt32} {k i : Nat} (hk : 9 + 2 * (i + k) ≤ n) (mem : Memory) :
    storeBytes line base k i mem = storeBytes line' base k i mem := by
  induction k generalizing i mem with
  | zero => rfl
  | succ k ih =>
    rw [storeBytes, storeBytes, hex2_congr hlength htake (show 9 + i * 2 + 2 ≤ n by omega)]
    cases hex2 line' (9 + i * 2) with
    | none => rfl
    | some b => exact ih (by omega) _

theorem record_congr {count : UInt8} (hn : n = 9 + 2 * count.toNat) (address : UInt16)
    (type : UInt8) (s : Load) :
    record line count address type s = record line' count address type s := by
  have htwo : count ≥ 2 → hex4 line 9 = hex4 line' 9 := by
    intro h
    have hle : 2 ≤ count.toNat := UInt8.le_iff_toNat_le.mp h
    exact hex4_congr hlength htake (by omega)
  have hfour : count ≥ 4 → ∀ pos ≤ 13, hex4 line pos = hex4 line' pos := by
    intro h pos hpos
    have hle : 4 ≤ count.toNat := UInt8.le_iff_toNat_le.mp h
    exact hex4_congr hlength htake (by omega)
  have hbytes : count ≥ 4 → ∀ pos ≤ 15, hex2 line pos = hex2 line' pos := by
    intro h pos hpos
    have hle : 4 ≤ count.toNat := UInt8.le_iff_toNat_le.mp h
    exact hex2_congr hlength htake (by omega)
  unfold record
  split
  · dsimp only
    rw [storeBytes_congr hlength htake (by omega)]
  · split
    · rename_i h
      rw [htwo h.2]
    · split
      · rename_i h
        rw [htwo h.2]
      · split
        · rename_i h
          rw [hfour h.2 9 (by decide), hfour h.2 13 (by decide)]
        · split
          · rename_i h
            rw [hbytes h.2 9 (by decide), hbytes h.2 11 (by decide), hbytes h.2 13 (by decide),
              hbytes h.2 15 (by decide)]
          · rfl

end

/-- **The checksum is not looked at.** -/
theorem loadLines_sameData {line line' : Str} (h : SameData line line') (rest : List Str) (s : Load) :
    loadLines (line :: rest) s = loadLines (line' :: rest) s := by
  obtain ⟨hlength, hhead, hdata⟩ := h
  have hheader : header line = header line' := by
    have hfirst : line.head? = line'.head? := by
      have hcongr := congrArg List.head? hhead
      rwa [List.head?_take, List.head?_take] at hcongr
    rw [header, header, hfirst, hlength, hex2_congr hlength hhead (by decide),
      hex4_congr hlength hhead (by decide), hex2_congr hlength hhead (show 7 + 2 ≤ 9 by decide)]
  rw [loadLines, loadLines, ← hheader]
  cases hread : header line with
  | none => rfl
  | some e =>
    obtain ⟨count, address, type⟩ := e
    have hcount := (header_eq_some.mp hread).2.1
    dsimp only
    rw [record_congr hlength (hdata count hcount) rfl]

/-- **What a line that is no well-formed record may change.**  If it is rejected, the file loads as
    it does without the line.  What stands behind the data, the checksum, counts for nothing. -/
theorem load_corrupted {content content' : Str} {line : Str} {pre post : List Str}
    (h : getLines content = pre ++ line :: post) (mem : Memory) :
    (Rejected line → getLines content' = pre ++ post → load content mem = load content' mem) ∧
      ∀ line', SameData line line' → getLines content' = pre ++ line' :: post →
        load content mem = load content' mem := by
  constructor
  · intro hrejected h'
    rw [load, load, h, h']
    exact loadLines_append_congr (loadLines_rejected hrejected post) pre _
  · intro line' hsame h'
    rw [load, load, h, h']
    exact loadLines_append_congr (loadLines_sameData hsame post) pre _

/-- A record of which a digit was lost is rejected. -/
theorem load_corrupted_short :
    load (str ":03010000C30533\n:00000001FF\n") (fun _ => 0)
      = load (str ":00000001FF\n") fun _ => 0 := by
  have hlines : getLines (str ":03010000C30533\n:00000001FF\n")
      = [] ++ str ":03010000C30533" :: [str ":00000001FF"] := by decide
  refine (load_corrupted hlines fun _ => 0).1 ?_ (by decide)
  exact Or.inr (Or.inr (Or.inr (Or.inr (Or.inl ⟨3, by decide +kernel, by decide⟩))))

/-- **A record with a wrong checksum is loaded** like any other. -/
theorem wrong_checksum_loaded :
    ∃ bytes : List UInt8, 58 :: bytes.flatMap hexByte = str ":0100000055FF" ∧ bytes.sum ≠ 0 ∧
      (load (str ":0100000055FF\n:00000001FF\n") fun _ => 0).mem
        ≠ (load (str ":00000001FF\n") fun _ => 0).mem := by
  refine ⟨[0x01, 0x00, 0x00, 0x00, 0x55, 0xFF], by decide +kernel, by decide, fun heq => ?_⟩
  have hbyte := congrFun heq 0
  exact absurd hbyte (by decide +kernel)

end Udap.Ihx
