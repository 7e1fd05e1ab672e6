import Mathlib.Data.List.Basic

/-!
# Reading the receive buffer

`process_input` receives a datagram into `u_int8_t buf[2048]` and the decoders read it through
casts to the packed NetFlow structs, converting with `ntohs`/`ntohl`. The model reads the
buffer as the list of bytes `recvfrom` stored, and every read returns an `Option`: `none` is a
read past the bytes received, which the C code would make without noticing.

## Byte order

A field is modelled by its value, the big-endian reading of its bytes. A field the code copies
in network byte order into the flow record and converts later (`htonl` in `process_flow`) keeps
the same value throughout, so `ntohs`, `ntohl`, `htonl` and `store_htonll` are the identity on
values here; the byte layout of what reaches the log is the writer's business (`Flowd.Log`).

## Main results

* `Flowd.be16_of_le`, `be16_of_lt` and their 8- and 32-bit versions — a read succeeds exactly
  when it lies within the buffer, and then returns the big-endian value of its bytes
* `Flowd.be16_congr`, `be32_congr` — a read depends on nothing but the bytes it reads
-/

namespace Flowd

/-- The byte at `off`. -/
def u8 (buf : List UInt8) (off : ℕ) : Option ℕ := buf[off]?.map UInt8.toNat

/-- The 16-bit field at `off`, as `ntohs` reads it. -/
def be16 (buf : List UInt8) (off : ℕ) : Option ℕ := do
  let hi ← u8 buf off
  let lo ← u8 buf (off + 1)
  pure (hi * 256 + lo)

/-- The 32-bit field at `off`, as `ntohl` reads it. -/
def be32 (buf : List UInt8) (off : ℕ) : Option ℕ := do
  let hi ← be16 buf off
  let lo ← be16 buf (off + 2)
  pure (hi * 65536 + lo)

/-- The byte at `off`, zero past the end: the value of a successful `u8`. -/
def getU8 (buf : List UInt8) (off : ℕ) : ℕ := (buf.getD off 0).toNat

/-- The value of a successful `be16`. -/
def getBe16 (buf : List UInt8) (off : ℕ) : ℕ := getU8 buf off * 256 + getU8 buf (off + 1)

/-- The value of a successful `be32`. -/
def getBe32 (buf : List UInt8) (off : ℕ) : ℕ := getBe16 buf off * 65536 + getBe16 buf (off + 2)

variable {buf buf' : List UInt8} {off n : ℕ}

/-! ### Reads within the buffer succeed, reads past it fail -/

theorem u8_of_lt (h : off < buf.length) : u8 buf off = some (getU8 buf off) := by
  simp [u8, getU8, h]

theorem u8_of_le (h : buf.length ≤ off) : u8 buf off = none := by
  simp [u8, h]

theorem be16_of_le (h : off + 2 ≤ buf.length) : be16 buf off = some (getBe16 buf off) := by
  simp [be16, getBe16, u8_of_lt (show off < buf.length by omega),
    u8_of_lt (show off + 1 < buf.length by omega)]

theorem be16_of_lt (h : buf.length < off + 2) : be16 buf off = none := by
  by_cases h' : off < buf.length
  · simp [be16, u8_of_lt h', u8_of_le (show buf.length ≤ off + 1 by omega)]
  · simp [be16, u8_of_le (show buf.length ≤ off by omega)]

theorem be32_of_le (h : off + 4 ≤ buf.length) : be32 buf off = some (getBe32 buf off) := by
  simp [be32, getBe32, be16_of_le (show off + 2 ≤ buf.length by omega),
    be16_of_le (show off + 2 + 2 ≤ buf.length by omega)]

theorem be32_of_lt (h : buf.length < off + 4) : be32 buf off = none := by
  by_cases h' : off + 2 ≤ buf.length
  · simp [be32, be16_of_le h', be16_of_lt (show buf.length < off + 2 + 2 by omega)]
  · simp [be32, be16_of_lt (show buf.length < off + 2 by omega)]

@[simp] theorem isSome_be16 : (be16 buf off).isSome ↔ off + 2 ≤ buf.length := by
  by_cases h : off + 2 ≤ buf.length
  · simp [be16_of_le h, h]
  · simp [be16_of_lt (show buf.length < off + 2 by omega), h]

@[simp] theorem isSome_be32 : (be32 buf off).isSome ↔ off + 4 ≤ buf.length := by
  by_cases h : off + 4 ≤ buf.length
  · simp [be32_of_le h, h]
  · simp [be32_of_lt (show buf.length < off + 4 by omega), h]

/-! ### A read sees only the bytes it reads -/

theorem u8_congr (h : buf'[off]? = buf[off]?) : u8 buf' off = u8 buf off := by
  simp [u8, h]

theorem be16_congr (h : ∀ j < 2, buf'[off + j]? = buf[off + j]?) :
    be16 buf' off = be16 buf off := by
  have h₀ : buf'[off]? = buf[off]? := by simpa using h 0 (by omega)
  simp only [be16, u8_congr h₀, u8_congr (h 1 (by omega))]

theorem be32_congr (h : ∀ j < 4, buf'[off + j]? = buf[off + j]?) :
    be32 buf' off = be32 buf off := by
  have h₂ : ∀ j < 2, buf'[off + 2 + j]? = buf[off + 2 + j]? := fun j hj => by
    simpa [Nat.add_assoc] using h (2 + j) (by omega)
  simp only [be32, be16_congr fun j hj => h j (by omega), be16_congr h₂]

theorem getU8_take (h : off < n) : getU8 (buf.take n) off = getU8 buf off := by
  simp [getU8, List.getElem?_take_of_lt h]

theorem getBe16_take (h : off + 2 ≤ n) : getBe16 (buf.take n) off = getBe16 buf off := by
  simp only [getBe16, getU8_take (show off < n by omega), getU8_take (show off + 1 < n by omega)]

theorem u8_take (h : off < n) : u8 (buf.take n) off = u8 buf off :=
  u8_congr (List.getElem?_take_of_lt h)

theorem be16_take (h : off + 2 ≤ n) : be16 (buf.take n) off = be16 buf off :=
  be16_congr fun _ _ => List.getElem?_take_of_lt (by omega)

theorem be32_take (h : off + 4 ≤ n) : be32 (buf.take n) off = be32 buf off :=
  be32_congr fun _ _ => List.getElem?_take_of_lt (by omega)

end Flowd
