import Quantity.Text.CharRange

/-!
# Case of letters

Capital and small letters have Unicode's properties Uppercase and Lowercase. The small form
of a character is a shift within a range; one character has a small form of two characters.
-/

namespace Quantity.Text

/-- The capital letters beyond the first 128 characters. -/
def uppercaseRanges : List CharRange :=
  CharRange.runs 1 0x80
    [64,23,1,7,162,2,7,2,2,4,1,2,1,3,3,2,1,2,17,2,4,1,3,1,7,1,2,1,2,1,38,1,5,2,65,2,1,2,5,3,303,1,
     8,1,9,2,7,16,1,9,35,1,2,3,31,1,5,1,2,51,257,38,2889,38,1,1,5,1,722,86,2202,43,2,3,584,8,8,6,
     10,8,8,8,8,6,26,8,72,4,12,4,12,4,12,5,11,4,262,1,4,1,3,3,2,3,2,1,3,5,13,3,2,4,10,2,5,1,26,16,
     19,1,818,26,1840,48,51,2,9,3,1,1,2,1,8,3,113,1,31416,4,1,5,16,3,1,1,6,1,36,1,22315,26,1221,40,
     136,36,156,11,1,15,1,7,1,2,1770,51,3053,32,21888,32,26016,26,26,26,26,26,29,1,2,1,2,2,2,4,1,8,
     26,26,26,2,1,4,2,8,1,7,27,2,1,4,1,5,1,1,3,7,27,26,26,26,26,26,26,26,26,26,26,26,30,25,33,25,
     33,25,33,25,33,25,33,1,4405,34,2062,26,6,26,6,26] ++
  CharRange.runs 2 0x80
    [128,28,2,8,2,24,0,3,6,2,0,2,24,3,0,2,2,2,0,2,3,2,21,8,2,9,5,2,3,29,14,2,4,4,289,2,19,2,3,2,0,
     2,70,12,8,2,102,17,9,28,0,7,2,48,6353,75,9,49,90,4,452,4,2869,2,4,4,20,49,8,2,31058,23,19,14,
     135,7,3,31,10,3,0,5,4,2,2,2,3,11,11,8,17,2,76995,2]

/-- The small letters beyond the first 128 characters. -/
def lowercaseRanges : List CharRange :=
  CharRange.runs 1 0x80
    [42,1,10,1,4,1,36,24,1,8,127,2,7,1,3,2,4,1,2,1,3,3,2,1,17,1,8,2,2,3,6,1,2,1,38,1,67,6,2,1,2,2,
     1,1,13,68,1,36,7,2,30,5,96,1,49,1,2,4,18,1,27,35,1,2,3,3,24,4,1,1,2,1,2,2,51,48,256,41,2887,
     43,1,4,760,6,2178,9,119,192,214,8,98,8,8,6,10,8,8,8,8,6,10,8,8,8,8,14,2,8,8,8,8,8,8,5,1,2,6,1,
     3,3,1,2,8,4,2,2,8,8,10,3,1,2,121,1,13,1,16,13,109,1,3,2,3,1,27,1,4,1,4,1,2,2,8,4,4,1,33,16,4,
     1,843,26,1862,48,1,1,3,2,16,7,102,1,14,1,12,38,1,1,5,1,31086,2,146,2,62,9,27,2,25,1,66,3,4,2,
     821,43,1,14,6,80,20288,7,12,5,1065,26,1229,40,136,36,155,11,1,15,1,7,1,2,451,1,2,3,1,42,1,9,
     1285,51,3021,32,21888,32,26010,26,26,7,1,18,26,26,26,4,4,6,1,11,26,26,26,26,26,26,26,26,26,26,
     26,26,26,26,26,26,26,28,28,25,1,6,26,25,1,6,26,25,1,6,26,25,1,6,26,25,1,6,1,1,1844,10,1,20,6,
     6,261,62,2228,34] ++
  CharRange.runs 2 0x80
    [129,28,0,9,0,24,2,3,4,2,27,3,2,2,0,2,6,2,21,9,0,10,3,2,3,30,19,5,289,2,101,12,113,17,9,27,2,7,
     0,49,6353,75,9,49,3432,3,4,2,0,2,10,50,8,2,31058,23,19,14,135,7,3,31,10,2,2,5,4,2,2,2,3,10,11,
     8,4,2,6,5,28,2,76994,2]

def isCapital (c : Char) : Bool :=
  if isAscii c then c.isUpper else inRanges uppercaseRanges c

def isSmall (c : Char) : Bool :=
  if isAscii c then c.isLower else inRanges lowercaseRanges c

/-- A range of characters whose small forms lie `shift` code points further. -/
structure CaseShift where
  range : CharRange
  shift : Int
  deriving DecidableEq, Repr

/-- The small forms of runs of characters beyond the first 128, all of which lie as far. -/
def shifts (step : Nat) (shift : Int) (lengths : List Nat) : List CaseShift :=
  (CharRange.runs step 0x80 lengths).map fun range => ⟨range, shift⟩

/-- The small forms of the characters beyond the first 128. -/
def caseShifts : List CaseShift :=
  shifts 2 1
    [128,24,3,3,2,8,2,23,2,3,4,2,2,1,3,1,5,1,6,1,7,3,2,1,4,1,2,1,3,2,2,1,3,1,8,1,2,1,2,9,2,9,3,2,3,
     20,3,9,8,1,5,1,4,5,289,2,3,1,97,12,8,1,2,1,101,17,9,27,2,7,2,48,6353,75,11,48,644,1,2780,1,6,
     3,6,1,2,1,10,50,8,2,4,1,31053,23,19,14,135,7,3,31,10,2,2,5,4,1,4,2,3,10,11,8,4,2,6,1,5,2,28,1] ++
  shifts 1 (-8)
    [7816,8,8,6,10,8,8,8,8,6,26,8,24,8,8,8,8,8,8,2,30,2,14,2] ++
  shifts 1 32
    [64, 23, 1, 7, 690, 17, 1, 9, 100, 32, 64241, 26, 6501, 32, 21888, 32] ++
  shifts 1 39
    [66800, 11, 1, 15, 1, 7, 1, 2] ++
  [⟨⟨0x178, 0x178, 1⟩, -121⟩, ⟨⟨0x181, 0x181, 1⟩, 210⟩, ⟨⟨0x186, 0x186, 1⟩, 206⟩,
   ⟨⟨0x189, 0x18A, 1⟩, 205⟩, ⟨⟨0x18E, 0x18E, 1⟩, 79⟩, ⟨⟨0x18F, 0x18F, 1⟩, 202⟩,
   ⟨⟨0x190, 0x190, 1⟩, 203⟩, ⟨⟨0x193, 0x193, 1⟩, 205⟩, ⟨⟨0x194, 0x194, 1⟩, 207⟩,
   ⟨⟨0x196, 0x196, 1⟩, 211⟩, ⟨⟨0x197, 0x197, 1⟩, 209⟩, ⟨⟨0x19C, 0x19C, 1⟩, 211⟩,
   ⟨⟨0x19D, 0x19D, 1⟩, 213⟩, ⟨⟨0x19F, 0x19F, 1⟩, 214⟩, ⟨⟨0x1A6, 0x1A6, 1⟩, 218⟩,
   ⟨⟨0x1A9, 0x1A9, 1⟩, 218⟩, ⟨⟨0x1AE, 0x1AE, 1⟩, 218⟩, ⟨⟨0x1B1, 0x1B2, 1⟩, 217⟩,
   ⟨⟨0x1B7, 0x1B7, 1⟩, 219⟩, ⟨⟨0x1C4, 0x1C4, 1⟩, 2⟩, ⟨⟨0x1C7, 0x1C7, 1⟩, 2⟩,
   ⟨⟨0x1CA, 0x1CA, 1⟩, 2⟩, ⟨⟨0x1F1, 0x1F1, 1⟩, 2⟩, ⟨⟨0x1F6, 0x1F6, 1⟩, -97⟩,
   ⟨⟨0x1F7, 0x1F7, 1⟩, -56⟩, ⟨⟨0x220, 0x220, 1⟩, -130⟩, ⟨⟨0x23A, 0x23A, 1⟩, 10795⟩,
   ⟨⟨0x23D, 0x23D, 1⟩, -163⟩, ⟨⟨0x23E, 0x23E, 1⟩, 10792⟩, ⟨⟨0x243, 0x243, 1⟩, -195⟩,
   ⟨⟨0x244, 0x244, 1⟩, 69⟩, ⟨⟨0x245, 0x245, 1⟩, 71⟩, ⟨⟨0x37F, 0x37F, 1⟩, 116⟩,
   ⟨⟨0x386, 0x386, 1⟩, 38⟩, ⟨⟨0x388, 0x38A, 1⟩, 37⟩, ⟨⟨0x38C, 0x38C, 1⟩, 64⟩,
   ⟨⟨0x38E, 0x38F, 1⟩, 63⟩, ⟨⟨0x3CF, 0x3CF, 1⟩, 8⟩, ⟨⟨0x3F4, 0x3F4, 1⟩, -60⟩,
   ⟨⟨0x3F9, 0x3F9, 1⟩, -7⟩, ⟨⟨0x3FD, 0x3FF, 1⟩, -130⟩, ⟨⟨0x400, 0x40F, 1⟩, 80⟩,
   ⟨⟨0x4C0, 0x4C0, 1⟩, 15⟩, ⟨⟨0x531, 0x556, 1⟩, 48⟩, ⟨⟨0x10A0, 0x10C5, 1⟩, 7264⟩,
   ⟨⟨0x10C7, 0x10C7, 1⟩, 7264⟩, ⟨⟨0x10CD, 0x10CD, 1⟩, 7264⟩, ⟨⟨0x13A0, 0x13EF, 1⟩, 38864⟩,
   ⟨⟨0x13F0, 0x13F5, 1⟩, 8⟩, ⟨⟨0x1C90, 0x1CBA, 1⟩, -3008⟩, ⟨⟨0x1CBD, 0x1CBF, 1⟩, -3008⟩,
   ⟨⟨0x1E9E, 0x1E9E, 1⟩, -7615⟩, ⟨⟨0x1F59, 0x1F5F, 2⟩, -8⟩, ⟨⟨0x1FBA, 0x1FBB, 1⟩, -74⟩,
   ⟨⟨0x1FBC, 0x1FBC, 1⟩, -9⟩, ⟨⟨0x1FC8, 0x1FCB, 1⟩, -86⟩, ⟨⟨0x1FCC, 0x1FCC, 1⟩, -9⟩,
   ⟨⟨0x1FDA, 0x1FDB, 1⟩, -100⟩, ⟨⟨0x1FEA, 0x1FEB, 1⟩, -112⟩, ⟨⟨0x1FEC, 0x1FEC, 1⟩, -7⟩,
   ⟨⟨0x1FF8, 0x1FF9, 1⟩, -128⟩, ⟨⟨0x1FFA, 0x1FFB, 1⟩, -126⟩, ⟨⟨0x1FFC, 0x1FFC, 1⟩, -9⟩,
   ⟨⟨0x2126, 0x2126, 1⟩, -7517⟩, ⟨⟨0x212A, 0x212A, 1⟩, -8383⟩, ⟨⟨0x212B, 0x212B, 1⟩, -8262⟩,
   ⟨⟨0x2132, 0x2132, 1⟩, 28⟩, ⟨⟨0x2160, 0x216F, 1⟩, 16⟩, ⟨⟨0x24B6, 0x24CF, 1⟩, 26⟩,
   ⟨⟨0x2C00, 0x2C2F, 1⟩, 48⟩, ⟨⟨0x2C62, 0x2C62, 1⟩, -10743⟩, ⟨⟨0x2C63, 0x2C63, 1⟩, -3814⟩,
   ⟨⟨0x2C64, 0x2C64, 1⟩, -10727⟩, ⟨⟨0x2C6D, 0x2C6D, 1⟩, -10780⟩, ⟨⟨0x2C6E, 0x2C6E, 1⟩, -10749⟩,
   ⟨⟨0x2C6F, 0x2C6F, 1⟩, -10783⟩, ⟨⟨0x2C70, 0x2C70, 1⟩, -10782⟩, ⟨⟨0x2C7E, 0x2C7F, 1⟩, -10815⟩,
   ⟨⟨0xA77D, 0xA77D, 1⟩, -35332⟩, ⟨⟨0xA78D, 0xA78D, 1⟩, -42280⟩, ⟨⟨0xA7AA, 0xA7AA, 1⟩, -42308⟩,
   ⟨⟨0xA7AB, 0xA7AB, 1⟩, -42319⟩, ⟨⟨0xA7AC, 0xA7AC, 1⟩, -42315⟩, ⟨⟨0xA7AD, 0xA7AD, 1⟩, -42305⟩,
   ⟨⟨0xA7AE, 0xA7AE, 1⟩, -42308⟩, ⟨⟨0xA7B0, 0xA7B0, 1⟩, -42258⟩, ⟨⟨0xA7B1, 0xA7B1, 1⟩, -42282⟩,
   ⟨⟨0xA7B2, 0xA7B2, 1⟩, -42261⟩, ⟨⟨0xA7B3, 0xA7B3, 1⟩, 928⟩, ⟨⟨0xA7C4, 0xA7C4, 1⟩, -48⟩,
   ⟨⟨0xA7C5, 0xA7C5, 1⟩, -42307⟩, ⟨⟨0xA7C6, 0xA7C6, 1⟩, -35384⟩, ⟨⟨0x10400, 0x10427, 1⟩, 40⟩,
   ⟨⟨0x104B0, 0x104D3, 1⟩, 40⟩, ⟨⟨0x10C80, 0x10CB2, 1⟩, 64⟩, ⟨⟨0x1E900, 0x1E921, 1⟩, 34⟩]

def smallForm (c : Char) : List Char :=
  if isAscii c then [c.toLower]
  else if c.toNat = 0x130 then ['i', Char.ofNat 0x307]
  else match caseShifts.find? fun s => s.range.contains c with
    | some s => [Char.ofNat (c.toNat + s.shift).toNat]
    | none => [c]

def inSmallLetters (s : String) : String := String.ofList (s.toList.flatMap smallForm)

end Quantity.Text
