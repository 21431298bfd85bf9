import Convers.Lib.BitString
import Convers.Lib.PrefixCode

/-!
# The Huffman tables

The static code of the link compression, as the program tabulates it: for each
byte its code and the length of its code, and for each node of the decoding tree
its two children. A node without a second child is a leaf, and its first child is
then the symbol.

The tables agree, checked by one evaluation over the bytes
(`Convers.HuffmanTables.decodeTree_codes`): the bits of a byte's code lead from
the root to the byte's leaf.
-/

namespace Convers

namespace HuffmanTables

/-- An entry of a table, which is given in rows of sixteen. -/
def entry (table : List (List ℕ)) (n : ℕ) : ℕ := (table.getD (n / 16) []).getD (n % 16) 0

/-- `HuffmanTables.EncodeCode`: the code of each byte, in the high bits of 16. -/
def encodeCode : List (List ℕ) :=
  [[43820, 43652, 40900, 43836, 43804, 43772, 43756, 43732, 43700, 62272, 43684, 32100, 43740,
      62464, 43668, 40948],
    [40916, 32116, 43844, 43828, 43812, 43796, 43780, 43764, 43748, 43872, 43788, 43724, 43708,
      43692, 43676, 43660],
    [49152, 14976, 43968, 96, 32064, 43868, 0, 43864, 31744, 15488, 32000, 16, 4608, 31232,
      47104, 12800],
    [8704, 62976, 15616, 40448, 48512, 31872, 128, 43520, 48384, 40704, 768, 43896, 43880,
      15360, 12288, 32],
    [32080, 14336, 30720, 39936, 65024, 9216, 48128, 512, 256, 61696, 64, 12544, 61952, 13312,
      7168, 7680],
    [48640, 43936, 15872, 5120, 13824, 62336, 61568, 8192, 64512, 40832, 40576, 43920, 15232,
      43904, 43860, 14928],
    [43856, 40960, 6144, 38912, 28672, 16384, 1024, 44032, 63488, 24576, 14848, 64768, 10240,
      45056, 32768, 46080],
    [4096, 32032, 57344, 36864, 59392, 2048, 63232, 43008, 32128, 62208, 32256, 43848, 14920,
      43852, 14944, 40956],
    [40940, 8448, 40924, 40908, 61440, 32124, 32108, 14912, 43840, 43832, 43824, 43816, 43808,
      43800, 43888, 43792],
    [43784, 43776, 43768, 43760, 15104, 43752, 43744, 43736, 43728, 43876, 32048, 43720, 43712,
      43704, 43696, 43688],
    [43680, 43672, 43664, 43656, 43648, 40952, 40944, 40936, 40928, 40920, 40912, 40904, 40896,
      32120, 32112, 14936],
    [32104, 32096, 43846, 43842, 43838, 43834, 43830, 43826, 43822, 43818, 43814, 43810, 43806,
      43802, 43798, 43794],
    [43790, 43786, 43782, 43778, 43774, 43770, 43766, 43762, 43758, 43754, 43750, 43746, 43742,
      43738, 43734, 43730],
    [43726, 43722, 43718, 43714, 43710, 43706, 43702, 43698, 43694, 43690, 43686, 43682, 43678,
      14960, 43674, 43670],
    [43666, 12416, 43662, 43658, 43654, 43650, 40958, 40954, 40950, 40946, 40942, 40938, 40934,
      40930, 40926, 40922],
    [40918, 40914, 40910, 40906, 40902, 40898, 32126, 32122, 32118, 32114, 32110, 32106, 32102,
      32098, 14918, 14916]]

/-- `HuffmanTables.EncodeLen`: the length of each code in bits. -/
def encodeLen : List (List ℕ) :=
  [[15, 15, 15, 15, 15, 15, 15, 15, 15, 10, 15, 15, 15, 7, 15, 15],
    [15, 15, 15, 15, 15, 15, 15, 15, 15, 14, 15, 15, 15, 15, 15, 15],
    [3, 9, 10, 11, 12, 14, 12, 14, 9, 9, 11, 12, 7, 7, 6, 7],
    [7, 8, 8, 9, 9, 9, 9, 9, 9, 9, 8, 13, 13, 9, 9, 11],
    [12, 7, 7, 7, 7, 6, 8, 8, 8, 8, 11, 8, 8, 7, 7, 7],
    [7, 11, 7, 6, 7, 9, 9, 8, 8, 10, 9, 12, 9, 12, 14, 13],
    [14, 5, 6, 6, 5, 3, 6, 6, 6, 4, 10, 8, 5, 6, 4, 6],
    [7, 12, 5, 5, 5, 5, 8, 7, 9, 10, 7, 14, 13, 14, 12, 15],
    [15, 8, 15, 15, 9, 15, 15, 14, 15, 15, 15, 15, 15, 15, 13, 15],
    [15, 15, 15, 15, 9, 15, 15, 15, 15, 14, 12, 15, 15, 15, 15, 15],
    [15, 15, 15, 15, 15, 15, 15, 15, 15, 15, 15, 15, 15, 15, 15, 13],
    [15, 15, 15, 15, 15, 15, 15, 15, 15, 15, 15, 15, 15, 15, 15, 15],
    [15, 15, 15, 15, 15, 15, 15, 15, 15, 15, 15, 15, 15, 15, 15, 15],
    [15, 15, 15, 15, 15, 15, 15, 15, 15, 15, 15, 15, 15, 12, 15, 15],
    [15, 9, 15, 15, 15, 15, 15, 15, 15, 15, 15, 15, 15, 15, 15, 15],
    [15, 15, 15, 15, 15, 15, 15, 15, 15, 15, 15, 15, 15, 15, 15, 15]]

/-- `HuffmanTables.DecodeNode1`: the child of each node by a zero, or the symbol of a leaf. -/
def decodeNode1 : List (List ℕ) :=
  [[79, 2, 24, 4, 292, 6, 317, 16, 9, 10, 41, 12, 125, 357, 15, 0],
    [229, 18, 19, 20, 21, 404, 23, 1, 306, 313, 294, 245, 221, 231, 277, 32],
    [33, 34, 421, 36, 2, 122, 353, 40, 3, 131, 128, 361, 45, 4, 56, 52],
    [135, 370, 51, 5, 138, 375, 55, 6, 148, 58, 381, 60, 7, 75, 63, 392],
    [65, 8, 164, 311, 69, 70, 253, 257, 73, 319, 9, 76, 396, 78, 10, 165],
    [296, 300, 295, 206, 85, 193, 87, 199, 184, 90, 91, 430, 93, 11, 379, 96],
    [12, 98, 13, 100, 400, 102, 14, 331, 105, 408, 107, 15, 109, 417, 111, 16],
    [113, 425, 115, 17, 117, 118, 119, 351, 121, 18, 355, 124, 19, 359, 127, 20],
    [364, 130, 21, 132, 368, 134, 22, 372, 137, 23, 377, 140, 24, 142, 143, 144],
    [25, 366, 147, 26, 387, 385, 151, 27, 390, 154, 28, 394, 157, 29, 398, 160],
    [30, 402, 163, 31, 32, 175, 214, 211, 169, 243, 171, 286, 33, 265, 34, 176],
    [177, 178, 179, 180, 181, 189, 255, 35, 185, 36, 284, 192, 37, 190, 191, 38],
    [39, 194, 40, 196, 197, 237, 41, 200, 42, 43, 203, 204, 308, 44, 244, 45],
    [304, 210, 46, 212, 238, 47, 215, 216, 273, 48, 219, 49, 50, 222, 51, 224],
    [250, 230, 52, 53, 54, 55, 56, 57, 251, 58, 363, 59, 60, 61, 239, 240],
    [62, 63, 64, 65, 66, 67, 299, 275, 68, 69, 70, 71, 72, 271, 73, 74],
    [75, 76, 259, 77, 293, 262, 78, 79, 80, 279, 81, 82, 83, 84, 85, 342],
    [86, 274, 87, 276, 88, 89, 90, 283, 91, 374, 92, 93, 291, 94, 301, 288],
    [323, 290, 95, 96, 97, 98, 99, 100, 101, 102, 103, 104, 105, 106, 107, 108],
    [305, 109, 110, 111, 112, 310, 113, 312, 114, 115, 116, 117, 118, 119, 120, 121],
    [122, 322, 123, 349, 124, 125, 327, 126, 406, 330, 127, 412, 410, 334, 128, 129],
    [415, 338, 130, 419, 341, 131, 132, 423, 345, 133, 428, 348, 134, 350, 135, 352],
    [136, 354, 137, 356, 138, 358, 139, 360, 140, 362, 141, 142, 365, 143, 367, 144],
    [369, 145, 371, 146, 373, 147, 148, 376, 149, 378, 150, 380, 151, 382, 152, 153],
    [154, 386, 155, 388, 389, 156, 391, 157, 393, 158, 395, 159, 397, 160, 399, 161],
    [401, 162, 403, 163, 405, 164, 407, 165, 409, 166, 411, 167, 413, 414, 168, 416],
    [169, 418, 170, 420, 171, 422, 172, 424, 173, 426, 174, 175, 429, 176, 431, 177],
    [178, 179, 180, 181, 182, 183, 184, 185, 186, 187, 188, 189, 190, 191, 192, 193],
    [194, 195, 196, 197, 198, 199, 200, 201, 202, 203, 204, 205, 206, 207, 208, 209],
    [0, 210, 211, 212, 213, 214, 215, 216, 217, 218, 219, 220, 221, 222, 223, 224],
    [225, 226, 227, 228, 229, 230, 231, 232, 233, 234, 235, 0, 236, 237, 238, 239],
    [240, 241, 242, 243, 244, 245, 246, 247, 248, 249, 250, 251, 252, 253, 512, 254],
    [255]]

/-- `HuffmanTables.DecodeNode2`: the child of each node by a one, `0` at a leaf. -/
def decodeNode2 : List (List ℕ) :=
  [[1, 66, 3, 208, 5, 298, 7, 8, 173, 116, 11, 37, 13, 14, 438, 0],
    [17, 46, 61, 99, 161, 22, 483, 0, 25, 26, 27, 28, 29, 30, 31, 103],
    [108, 339, 35, 500, 0, 38, 39, 434, 0, 42, 43, 44, 442, 0, 47, 48],
    [49, 50, 450, 0, 53, 54, 454, 0, 57, 94, 59, 460, 0, 62, 152, 64],
    [469, 0, 67, 68, 246, 97, 71, 72, 270, 74, 0, 155, 77, 473, 0, 80],
    [81, 82, 83, 84, 320, 86, 318, 88, 89, 112, 346, 92, 508, 0, 95, 458],
    [0, 218, 0, 158, 101, 478, 0, 104, 328, 106, 487, 0, 336, 110, 496, 0],
    [343, 114, 504, 0, 141, 186, 321, 120, 432, 0, 123, 436, 0, 126, 440, 0],
    [129, 444, 0, 145, 133, 448, 0, 136, 452, 0, 139, 456, 0, 234, 236, 383],
    [0, 146, 446, 0, 149, 150, 462, 0, 153, 467, 0, 156, 471, 0, 159, 475],
    [0, 162, 481, 0, 0, 166, 167, 168, 195, 170, 281, 172, 0, 174, 0, 202],
    [315, 297, 232, 252, 228, 182, 183, 0, 242, 0, 187, 188, 0, 241, 201, 0],
    [0, 227, 0, 267, 220, 198, 0, 309, 0, 0, 260, 268, 205, 0, 207, 0],
    [209, 223, 0, 258, 213, 0, 303, 249, 217, 0, 316, 0, 0, 278, 0, 264],
    [225, 226, 0, 0, 0, 0, 0, 0, 233, 0, 235, 0, 0, 0, 256, 480],
    [0, 0, 0, 0, 0, 0, 247, 248, 0, 0, 0, 0, 0, 254, 0, 0],
    [0, 0, 269, 0, 261, 263, 0, 0, 0, 266, 0, 0, 0, 0, 0, 272],
    [0, 335, 0, 302, 0, 0, 0, 280, 0, 282, 0, 0, 285, 0, 287, 326],
    [289, 427, 0, 0, 0, 0, 0, 0, 0, 0, 0, 0, 0, 0, 0, 0],
    [307, 0, 0, 0, 0, 384, 0, 314, 0, 0, 0, 0, 0, 0, 0, 0],
    [0, 325, 0, 324, 0, 0, 476, 0, 329, 485, 0, 332, 333, 489, 0, 0],
    [337, 494, 0, 340, 498, 0, 0, 344, 502, 0, 347, 506, 0, 510, 0, 433],
    [0, 435, 0, 437, 0, 439, 0, 441, 0, 443, 0, 0, 445, 0, 447, 0],
    [449, 0, 451, 0, 453, 0, 0, 455, 0, 457, 0, 459, 0, 461, 0, 0],
    [0, 463, 0, 464, 466, 0, 468, 0, 470, 0, 472, 0, 474, 0, 477, 0],
    [479, 0, 482, 0, 484, 0, 486, 0, 488, 0, 490, 0, 491, 493, 0, 495],
    [0, 497, 0, 499, 0, 501, 0, 503, 0, 505, 0, 0, 507, 0, 509, 0],
    [0, 0, 0, 0, 0, 0, 0, 0, 0, 0, 0, 0, 0, 0, 0, 0],
    [0, 0, 0, 0, 0, 0, 0, 0, 0, 0, 0, 0, 0, 0, 0, 0],
    [465, 0, 0, 0, 0, 0, 0, 0, 0, 0, 0, 0, 0, 0, 0, 0],
    [0, 0, 0, 0, 0, 0, 0, 0, 0, 0, 0, 492, 0, 0, 0, 0],
    [0, 0, 0, 0, 0, 0, 0, 0, 0, 0, 0, 0, 0, 0, 511, 0],
    [0]]

/-- `Mask16`: the bit within a 16-bit code, the most significant first. -/
def mask16 : List ℕ :=
  [0x8000, 0x4000, 0x2000, 0x1000, 0x0800, 0x0400, 0x0200, 0x0100, 0x0080, 0x0040, 0x0020, 0x0010,
    0x0008, 0x0004, 0x0002, 0x0001]

/-- Bit `j` of the code of a byte. -/
def codeBit (b : UInt8) (j : ℕ) : Bool :=
  entry encodeCode b.toNat &&& mask16.getD j 0 ≠ 0

/-- The bits of the code of a byte. -/
def codeBits (b : UInt8) : List Bool := (List.range (entry encodeLen b.toNat)).map (codeBit b)

/-- The decoding tree. -/
def decodeTree : PrefixCode.CodeTree ℕ UInt8 where
  root := 0
  child n b := if b then entry decodeNode2 n else entry decodeNode1 n
  symbol n := if entry decodeNode2 n = 0 then some (UInt8.ofNat (entry decodeNode1 n)) else none

/-- What the decoder needs of the tables, for one byte: its code has a bit and at
most fifteen, and leads through inner nodes, never back to the root, to its leaf. -/
def agrees (b : UInt8) : Bool :=
  1 ≤ entry encodeLen b.toNat && entry encodeLen b.toNat ≤ 15 &&
    match decodeTree.descend decodeTree.root (codeBits b) with
    | some n => decodeTree.symbol n = some b
    | none => false

/-- The tables agree on every byte, by evaluation. -/
theorem agrees_all : ∀ n < 256, agrees (UInt8.ofNat n) = true := by decide +kernel

theorem agrees_byte (b : UInt8) : agrees b = true := by
  simpa using agrees_all b.toNat b.toNat_lt

theorem length_codeBits (b : UInt8) : (codeBits b).length = entry encodeLen b.toNat := by
  simp [codeBits]

/-- A code has a bit, and at most fifteen. -/
theorem length_codeBits_bounds (b : UInt8) :
    1 ≤ (codeBits b).length ∧ (codeBits b).length ≤ 15 := by
  have h := agrees_byte b
  simp only [agrees, Bool.and_eq_true, decide_eq_true_eq] at h
  rw [length_codeBits]
  exact h.1

/-- **The encoding table codes the decoding tree.** It is checked symbol by symbol, and all the
codec needs to know of the tables. -/
theorem decodeTree_codes : decodeTree.Codes codeBits := by
  intro b
  have h := agrees_byte b
  simp only [agrees, Bool.and_eq_true] at h
  obtain ⟨-, h⟩ := h
  split at h
  · rename_i n hn
    exact ⟨n, hn, of_decide_eq_true h⟩
  · cases h

end HuffmanTables

end Convers
