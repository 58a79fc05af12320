import Mathlib.Algebra.Group.Nat.Defs
import Wzdftpd.ReflectedCrc

/- The checksums of files and buffers (wzd_crc32.c): a table of 256 words, and a loop that
reads a file in blocks. An `unsigned long` has 64 bits. -/
namespace Wzdftpd

open ReflectedCrc List Nat

def crcs : List (BitVec 64) := [
    0x00000000, 0x77073096, 0xEE0E612C, 0x990951BA, 0x076DC419, 0x706AF48F, 0xE963A535,
    0x9E6495A3, 0x0EDB8832, 0x79DCB8A4, 0xE0D5E91E, 0x97D2D988, 0x09B64C2B, 0x7EB17CBD,
    0xE7B82D07, 0x90BF1D91, 0x1DB71064, 0x6AB020F2, 0xF3B97148, 0x84BE41DE, 0x1ADAD47D,
    0x6DDDE4EB, 0xF4D4B551, 0x83D385C7, 0x136C9856, 0x646BA8C0, 0xFD62F97A, 0x8A65C9EC,
    0x14015C4F, 0x63066CD9, 0xFA0F3D63, 0x8D080DF5, 0x3B6E20C8, 0x4C69105E, 0xD56041E4,
    0xA2677172, 0x3C03E4D1, 0x4B04D447, 0xD20D85FD, 0xA50AB56B, 0x35B5A8FA, 0x42B2986C,
    0xDBBBC9D6, 0xACBCF940, 0x32D86CE3, 0x45DF5C75, 0xDCD60DCF, 0xABD13D59, 0x26D930AC,
    0x51DE003A, 0xC8D75180, 0xBFD06116, 0x21B4F4B5, 0x56B3C423, 0xCFBA9599, 0xB8BDA50F,
    0x2802B89E, 0x5F058808, 0xC60CD9B2, 0xB10BE924, 0x2F6F7C87, 0x58684C11, 0xC1611DAB,
    0xB6662D3D, 0x76DC4190, 0x01DB7106, 0x98D220BC, 0xEFD5102A, 0x71B18589, 0x06B6B51F,
    0x9FBFE4A5, 0xE8B8D433, 0x7807C9A2, 0x0F00F934, 0x9609A88E, 0xE10E9818, 0x7F6A0DBB,
    0x086D3D2D, 0x91646C97, 0xE6635C01, 0x6B6B51F4, 0x1C6C6162, 0x856530D8, 0xF262004E,
    0x6C0695ED, 0x1B01A57B, 0x8208F4C1, 0xF50FC457, 0x65B0D9C6, 0x12B7E950, 0x8BBEB8EA,
    0xFCB9887C, 0x62DD1DDF, 0x15DA2D49, 0x8CD37CF3, 0xFBD44C65, 0x4DB26158, 0x3AB551CE,
    0xA3BC0074, 0xD4BB30E2, 0x4ADFA541, 0x3DD895D7, 0xA4D1C46D, 0xD3D6F4FB, 0x4369E96A,
    0x346ED9FC, 0xAD678846, 0xDA60B8D0, 0x44042D73, 0x33031DE5, 0xAA0A4C5F, 0xDD0D7CC9,
    0x5005713C, 0x270241AA, 0xBE0B1010, 0xC90C2086, 0x5768B525, 0x206F85B3, 0xB966D409,
    0xCE61E49F, 0x5EDEF90E, 0x29D9C998, 0xB0D09822, 0xC7D7A8B4, 0x59B33D17, 0x2EB40D81,
    0xB7BD5C3B, 0xC0BA6CAD, 0xEDB88320, 0x9ABFB3B6, 0x03B6E20C, 0x74B1D29A, 0xEAD54739,
    0x9DD277AF, 0x04DB2615, 0x73DC1683, 0xE3630B12, 0x94643B84, 0x0D6D6A3E, 0x7A6A5AA8,
    0xE40ECF0B, 0x9309FF9D, 0x0A00AE27, 0x7D079EB1, 0xF00F9344, 0x8708A3D2, 0x1E01F268,
    0x6906C2FE, 0xF762575D, 0x806567CB, 0x196C3671, 0x6E6B06E7, 0xFED41B76, 0x89D32BE0,
    0x10DA7A5A, 0x67DD4ACC, 0xF9B9DF6F, 0x8EBEEFF9, 0x17B7BE43, 0x60B08ED5, 0xD6D6A3E8,
    0xA1D1937E, 0x38D8C2C4, 0x4FDFF252, 0xD1BB67F1, 0xA6BC5767, 0x3FB506DD, 0x48B2364B,
    0xD80D2BDA, 0xAF0A1B4C, 0x36034AF6, 0x41047A60, 0xDF60EFC3, 0xA867DF55, 0x316E8EEF,
    0x4669BE79, 0xCB61B38C, 0xBC66831A, 0x256FD2A0, 0x5268E236, 0xCC0C7795, 0xBB0B4703,
    0x220216B9, 0x5505262F, 0xC5BA3BBE, 0xB2BD0B28, 0x2BB45A92, 0x5CB36A04, 0xC2D7FFA7,
    0xB5D0CF31, 0x2CD99E8B, 0x5BDEAE1D, 0x9B64C2B0, 0xEC63F226, 0x756AA39C, 0x026D930A,
    0x9C0906A9, 0xEB0E363F, 0x72076785, 0x05005713, 0x95BF4A82, 0xE2B87A14, 0x7BB12BAE,
    0x0CB61B38, 0x92D28E9B, 0xE5D5BE0D, 0x7CDCEFB7, 0x0BDBDF21, 0x86D3D2D4, 0xF1D4E242,
    0x68DDB3F8, 0x1FDA836E, 0x81BE16CD, 0xF6B9265B, 0x6FB077E1, 0x18B74777, 0x88085AE6,
    0xFF0F6A70, 0x66063BCA, 0x11010B5C, 0x8F659EFF, 0xF862AE69, 0x616BFFD3, 0x166CCF45,
    0xA00AE278, 0xD70DD2EE, 0x4E048354, 0x3903B3C2, 0xA7672661, 0xD06016F7, 0x4969474D,
    0x3E6E77DB, 0xAED16A4A, 0xD9D65ADC, 0x40DF0B66, 0x37D83BF0, 0xA9BCAE53, 0xDEBB9EC5,
    0x47B2CF7F, 0x30B5FFE9, 0xBDBDF21C, 0xCABAC28A, 0x53B39330, 0x24B4A3A6, 0xBAD03605,
    0xCDD70693, 0x54DE5729, 0x23D967BF, 0xB3667A2E, 0xC4614AB8, 0x5D681B02, 0x2A6F2B94,
    0xB40BBE37, 0xC30C8EA1, 0x5A05DF1B, 0x2D02EF8D]

theorem crcs_length : crcs.length = 256 := by decide +kernel

variable {bufsiz : Nat} (x : BitVec 64) (c : BitVec 32)

theorem crcIndex_lt : (x &&& 0xFF#64).toNat < crcs.length := by
  rw [crcs_length]
  exact and_lt_two_pow x.toNat (show (0xFF#64).toNat < 2 ^ 8 by decide)

def crcStep (tmpcrc value : BitVec 64) : BitVec 64 :=
  ((tmpcrc >>> 8) &&& 0x00FFFFFF#64) ^^^
    crcs.get ⟨((tmpcrc ^^^ value) &&& 0xFF#64).toNat, crcIndex_lt (tmpcrc ^^^ value)⟩

/-- A byte as `unsigned char` in an expression with `unsigned long`. -/
def unsignedChar (byte : BitVec 8) : BitVec 64 := byte.setWidth 64

/-- A byte as `char`, which has a sign on some machines. -/
def plainChar (signed : Bool) (byte : BitVec 8) : BitVec 64 :=
  if signed then byte.signExtend 64 else byte.setWidth 64

/-- Where `fseek` leaves a file that was just opened; an offset below 0 is refused. -/
def fseekStart (startpos : BitVec 64) : Nat :=
  if startpos.toInt < 0 then 0 else startpos.toNat

theorem drop_block_lt (rest : List (BitVec 8)) (n : Nat) (read : ¬rest.take n = []) :
    (rest.drop (rest.take n).length).length < rest.length := by
  have positive := length_pos_iff.mpr read
  have within := length_take_le' n rest
  rw [length_drop]
  omega

/-- The loop of `calc_crc32` over what is left of the file. -/
def crcLoop (bufsiz : Nat) (rest : List (BitVec 8)) (length : Nat) (tmpcrc : BitVec 64) :
    BitVec 64 :=
  let block := rest.take (min length bufsiz)
  if block = [] then tmpcrc
  else
    let tmpcrc := block.foldl (fun tmpcrc byte => crcStep tmpcrc (unsignedChar byte)) tmpcrc
    let length := length - block.length
    if min length bufsiz ≤ 0 then tmpcrc
    else crcLoop bufsiz (rest.drop block.length) length tmpcrc
termination_by rest.length
decreasing_by exact drop_block_lt rest _ (by assumption)

/-- `calc_crc32`: what it returns and `*crc`. A file that cannot be opened is `none`. -/
def calcCrc32 (bufsiz : Nat) (file : Option (List (BitVec 8))) (crc startpos length : BitVec 64) :
    Int × BitVec 64 :=
  let tmpcrc := ~~~crc &&& 0xFFFFFFFF#64
  match file with
  | none => (-1, crc)
  | some bytes =>
    let tmpcrc := crcLoop bufsiz (bytes.drop (fseekStart startpos)) length.toNat tmpcrc
    (0, ~~~tmpcrc &&& 0xFFFFFFFF#64)

/-- `calc_crc32_buffer` on the bytes that the caller hands over. -/
def calcCrc32Buffer (signed : Bool) (buffer : List (BitVec 8)) (crc : BitVec 64) :
    Int × BitVec 64 :=
  let tmpcrc := ~~~crc &&& 0xFFFFFFFF#64
  let tmpcrc := buffer.foldl (fun tmpcrc byte => crcStep tmpcrc (plainChar signed byte)) tmpcrc
  (0, ~~~tmpcrc &&& 0xFFFFFFFF#64)

def crc32Poly : BitVec 32 := 0xEDB88320#32

def crc32 (start : BitVec 32) (bytes : List (BitVec 8)) : BitVec 32 := crc crc32Poly start bytes

theorem crcs_eq_entries :
    crcs = (range 256).map fun index =>
      (entry crc32Poly (BitVec.ofNat 8 index)).setWidth 64 := by
  decide +kernel

theorem crcs_get {index : Nat} (inside : index < crcs.length) :
    crcs.get ⟨index, inside⟩ = (entry crc32Poly (BitVec.ofNat 8 index)).setWidth 64 := by
  have read : crcs[index]? = some ((entry crc32Poly (BitVec.ofNat 8 index)).setWidth 64) := by
    rw [crcs_eq_entries, getElem?_map, getElem?_range (crcs_length ▸ inside), Option.map_some]
  exact Option.some.inj ((getElem?_eq_getElem inside).symm.trans read)

theorem ofNat_and_byte : BitVec.ofNat 8 (x &&& 0xFF#64).toNat = x.setWidth 8 := by
  apply BitVec.eq_of_toNat_eq
  change (x.toNat &&& (2 ^ 8 - 1)) % 2 ^ 8 = x.toNat % 2 ^ 8
  rw [and_two_pow_sub_one_eq_mod, mod_mod]

theorem shiftRight_and_mask : (c.setWidth 64 >>> 8) &&& 0x00FFFFFF#64 = (c >>> 8).setWidth 64 := by
  apply BitVec.eq_of_toNat_eq
  rw [BitVec.toNat_and, BitVec.toNat_ushiftRight, BitVec.toNat_setWidth, BitVec.toNat_setWidth,
    BitVec.toNat_ushiftRight, shiftRight_eq_div_pow, shiftRight_eq_div_pow]
  change (c.toNat % 2 ^ 64 / 2 ^ 8) &&& (2 ^ 24 - 1) = _
  rw [and_two_pow_sub_one_eq_mod]
  omega

theorem crcStep_eq_feed (value : BitVec 64) :
    crcStep (c.setWidth 64) value = (feed crc32Poly c (value.setWidth 8)).setWidth 64 := by
  have index : (c.setWidth 64 ^^^ value).setWidth 8 = c.setWidth 8 ^^^ value.setWidth 8 := by
    simp
  rw [crcStep, crcs_get, ofNat_and_byte, index, shiftRight_and_mask, feed_eq_entry,
    BitVec.setWidth_xor]

theorem foldl_crcStep {value : BitVec 8 → BitVec 64}
    (low : ∀ byte, (value byte).setWidth 8 = byte) (bytes : List (BitVec 8)) : ∀ c : BitVec 32,
    bytes.foldl (fun tmpcrc byte => crcStep tmpcrc (value byte)) (c.setWidth 64) =
      (bytes.foldl (feed crc32Poly) c).setWidth 64 := by
  induction bytes with
  | nil => exact fun c => rfl
  | cons byte bytes ih =>
    intro c
    rw [foldl_cons, crcStep_eq_feed, low]
    exact ih (feed crc32Poly c byte)

theorem not_and_mask : ~~~c.setWidth 64 &&& 0xFFFFFFFF#64 = (~~~c).setWidth 64 := by
  apply BitVec.eq_of_toNat_eq
  rw [BitVec.toNat_and, BitVec.toNat_not, BitVec.toNat_setWidth, BitVec.toNat_setWidth,
    BitVec.toNat_not]
  change (2 ^ 64 - 1 - c.toNat % 2 ^ 64) &&& (2 ^ 32 - 1) = _
  rw [and_two_pow_sub_one_eq_mod]
  omega

theorem setWidth_unsignedChar (byte : BitVec 8) : (unsignedChar byte).setWidth 8 = byte := by
  simp [unsignedChar]

theorem setWidth_plainChar (signed : Bool) (byte : BitVec 8) :
    (plainChar signed byte).setWidth 8 = byte := by
  cases signed with
  | false => exact setWidth_unsignedChar byte
  | true =>
    change (byte.signExtend 64).setWidth 8 = byte
    apply BitVec.eq_of_getLsbD_eq
    intro i inside
    have wide : i < 64 := by omega
    simp only [BitVec.getLsbD_setWidth, BitVec.getLsbD_signExtend, inside, wide, decide_true,
      Bool.true_and, if_true]

theorem take_eq_block (rest : List (BitVec 8)) (length size : Nat) :
    rest.take length = rest.take (min length size) ++
      (rest.drop (rest.take (min length size)).length).take
        (length - (rest.take (min length size)).length) := by
  rw [length_take]
  by_cases whole : rest.length ≤ min length size
  · rw [Nat.min_eq_right whole, drop_length, take_nil, append_nil,
      take_of_length_le whole, take_of_length_le (by omega)]
  · have split : length = min length size + (length - min length size) := by omega
    rw [Nat.min_eq_left (a := min length size) (by omega), ← take_add, ← split]

/-- The blocks do not matter: the loop takes the bytes it may read one after the other. -/
theorem crcLoop_eq_foldl (positive : 0 < bufsiz) (rest : List (BitVec 8))
    (length : Nat) (tmpcrc : BitVec 64) :
    crcLoop bufsiz rest length tmpcrc = (rest.take length).foldl
      (fun tmpcrc byte => crcStep tmpcrc (unsignedChar byte)) tmpcrc := by
  fun_induction crcLoop bufsiz rest length tmpcrc with
  | case1 rest length tmpcrc block empty =>
    have none : rest.take length = [] := by
      rw [take_eq_nil_iff]
      rcases take_eq_nil_iff.mp empty with zero | nothing
      · exact .inl (by omega)
      · exact .inr nothing
    simp [none]
  | case2 rest length tmpcrc block some tmpcrc' length' last =>
    have none : length' = 0 := by omega
    rw [take_eq_block rest length bufsiz]
    change _ = (block ++ (rest.drop block.length).take length').foldl _ tmpcrc
    rw [none, take_zero, append_nil]
  | case3 rest length tmpcrc block some tmpcrc' length' more ih =>
    rw [ih, take_eq_block rest length bufsiz, foldl_append]

def region (file : List (BitVec 8)) (startpos length : BitVec 64) : List (BitVec 8) :=
  (file.drop startpos.toNat).take length.toNat

/-- The bytes that `calc_crc32` reads. -/
def regionRead (file : List (BitVec 8)) (startpos length : BitVec 64) : List (BitVec 8) :=
  (file.drop (fseekStart startpos)).take length.toNat

theorem calcCrc32_eq (positive : 0 < bufsiz) (file : List (BitVec 8))
    (crc : BitVec 32) (startpos length : BitVec 64) :
    calcCrc32 bufsiz (some file) (crc.setWidth 64) startpos length =
      (0, (crc32 crc (regionRead file startpos length)).setWidth 64) := by
  simp only [calcCrc32]
  rw [crcLoop_eq_foldl positive, not_and_mask, foldl_crcStep setWidth_unsignedChar, not_and_mask]
  rfl

theorem calcCrc32Buffer_eq (signed : Bool) (buffer : List (BitVec 8)) (crc : BitVec 32) :
    calcCrc32Buffer signed buffer (crc.setWidth 64) = (0, (crc32 crc buffer).setWidth 64) := by
  simp only [calcCrc32Buffer]
  rw [not_and_mask, foldl_crcStep (setWidth_plainChar signed), not_and_mask]
  rfl

theorem regionRead_of_nonneg {startpos : BitVec 64} (nonneg : ¬startpos.toInt < 0)
    (file : List (BitVec 8)) (length : BitVec 64) :
    regionRead file startpos length = region file startpos length := by
  rw [regionRead, fseekStart, if_neg nonneg, region]

/-- The CRC-32 of the bytes that are asked for, the same for a buffer and for blocks of any
size, and two runs are one run over both parts. -/
structure ChecksumsRight (bufsiz : Nat) (bytes : List (BitVec 8)) (crc : BitVec 32)
    (startpos length : BitVec 64) : Prop where
  file : calcCrc32 bufsiz (some bytes) (crc.setWidth 64) startpos length =
    (0, (crc32 crc (region bytes startpos length)).setWidth 64)
  buffer : ∀ signed, calcCrc32Buffer signed bytes (crc.setWidth 64) =
    (0, (crc32 crc bytes).setWidth 64)
  blocks : ∀ other, 0 < other →
    calcCrc32 other (some bytes) (crc.setWidth 64) startpos length =
      calcCrc32 bufsiz (some bytes) (crc.setWidth 64) startpos length
  files : ∀ second start size, ¬BitVec.toInt start < 0 →
    calcCrc32 bufsiz (some second)
        (calcCrc32 bufsiz (some bytes) (crc.setWidth 64) startpos length).2 start size =
      (0, (crc32 crc (region bytes startpos length ++ region second start size)).setWidth 64)
  buffers : ∀ signed second,
    calcCrc32Buffer signed second (calcCrc32Buffer signed bytes (crc.setWidth 64)).2 =
      calcCrc32Buffer signed (bytes ++ second) (crc.setWidth 64)

theorem eq_of_setWidth_eq {a b : BitVec 32} (same : a.setWidth 64 = b.setWidth 64) : a = b := by
  have back : ∀ c : BitVec 32, (c.setWidth 64).setWidth 32 = c := fun c => by
    simp
  rw [← back a, ← back b, same]

theorem toInt_neg_iff_ge (startpos : BitVec 64) :
    startpos.toInt < 0 ↔ ¬startpos.toNat < 2 ^ 63 := by
  rw [BitVec.toInt_eq_toNat_cond]
  split
  · omega
  · omega

/-- The checksums are right exactly when the position is one that `fseek` takes, or the
bytes from the start of the file happen to have the same one. -/
theorem checksums_right_iff (bufsiz : Nat) (bytes : List (BitVec 8)) (crc : BitVec 32)
    (startpos length : BitVec 64) (positive : 0 < bufsiz) :
    ChecksumsRight bufsiz bytes crc startpos length ↔
      startpos.toNat < 2 ^ 63 ∨
        crc32 crc (bytes.take length.toNat) = crc32 crc (region bytes startpos length) := by
  have read : crc32 crc (regionRead bytes startpos length) =
        crc32 crc (region bytes startpos length) ↔
      startpos.toNat < 2 ^ 63 ∨
        crc32 crc (bytes.take length.toNat) = crc32 crc (region bytes startpos length) := by
    by_cases valid : startpos.toNat < 2 ^ 63
    · have nonneg : ¬startpos.toInt < 0 := fun negative =>
        (toInt_neg_iff_ge startpos).mp negative valid
      exact iff_of_true (by rw [regionRead_of_nonneg nonneg]) (.inl valid)
    · rw [regionRead, fseekStart, if_pos ((toInt_neg_iff_ge startpos).mpr valid)]
      exact ⟨.inr, fun either => either.resolve_left valid⟩
  rw [← read]
  constructor
  · intro right
    have same := right.file
    rw [calcCrc32_eq positive] at same
    exact eq_of_setWidth_eq (Prod.mk.inj same).2
  · intro same
    refine ⟨?_, fun signed => calcCrc32Buffer_eq signed bytes crc, fun other some => ?_,
      fun second start size nonneg => ?_, fun signed second => ?_⟩
    · rw [calcCrc32_eq positive, same]
    · rw [calcCrc32_eq positive, calcCrc32_eq some]
    · rw [calcCrc32_eq positive, calcCrc32_eq positive, regionRead_of_nonneg nonneg, same, crc32,
        crc32, crc32, crc_append]
    · rw [calcCrc32Buffer_eq, calcCrc32Buffer_eq, calcCrc32Buffer_eq, crc32, crc32, crc32,
        crc_append]

/-- The check value of CRC-32. -/
theorem checksums_right_digits :
    ChecksumsRight 512 ("123456789".toList.map fun c => BitVec.ofNat 8 c.toNat) 0 0 9 ∧
      crc32 0 ("123456789".toList.map fun c => BitVec.ofNat 8 c.toNat) = 0xCBF43926#32 := by
  refine ⟨(checksums_right_iff 512 _ 0 0 9 (by decide)).mpr (.inl (by decide)), ?_⟩
  decide +kernel

/-- A position of -1 gives the checksum of the first bytes of the file. -/
theorem checksum_of_wrong_bytes :
    calcCrc32 512 (some [0x61#8]) 0 0xFFFFFFFFFFFFFFFF#64 1 = (0, 0xE8B7BE43#64) ∧
      crc32 0 (region [0x61#8] 0xFFFFFFFFFFFFFFFF#64 1) = 0 := by
  constructor
  · have read := calcCrc32_eq (show 0 < 512 by decide) [0x61#8] 0 0xFFFFFFFFFFFFFFFF#64 1
    exact read
  · decide +kernel

end Wzdftpd
