namespace BotConsole.Text

-- Lower case as far as it can lead to a plain ASCII text. Besides the ASCII capitals only
-- the Kelvin sign has a single ASCII letter as its lower case; every other character's lower
-- case holds a character outside ASCII, as the character itself does.
def lowerLetter (c : Char) : Char :=
  if c = '\u212a' then 'k' else c.toLower

def lowerAscii (s : List Char) : List Char :=
  s.map Char.toLower

-- The ranges beyond ASCII that hold signs, marks and punctuation instead of letters and
-- numbers: those of the Latin, Greek and Cyrillic blocks, of the symbol blocks, and of the
-- blocks for East Asian scripts, with private use and unassigned planes.
def signRanges : List (Nat × Nat) :=
  [(0x80, 0xA9), (0xAB, 0xB1), (0xB4, 0xB4), (0xB6, 0xB8), (0xBB, 0xBB), (0xBF, 0xBF),
    (0xD7, 0xD7), (0xF7, 0xF7), (0x2C2, 0x2C5), (0x2D2, 0x2DF), (0x2E5, 0x2EB), (0x2ED, 0x2ED),
    (0x2EF, 0x344), (0x346, 0x36F), (0x375, 0x375), (0x37E, 0x37E), (0x384, 0x385),
    (0x387, 0x387), (0x3F6, 0x3F6), (0x482, 0x489), (0x55A, 0x55F), (0x589, 0x5AF),
    (0x2000, 0x206F), (0x207A, 0x207E), (0x208A, 0x208E), (0x20A0, 0x2101), (0x2190, 0x245F),
    (0x2500, 0x2775), (0x2794, 0x2BFF), (0x2E00, 0x2E2E), (0x2E30, 0x3004), (0x3008, 0x3020),
    (0x302A, 0x3030), (0x303D, 0x303F), (0x3099, 0x309C), (0x30A0, 0x30A0), (0x30FB, 0x30FB),
    (0x31C0, 0x31EF), (0x3200, 0x321F), (0x3300, 0x33FF), (0x4DC0, 0x4DFF), (0xD800, 0xF8FF),
    (0xFE00, 0xFE6F), (0xFF00, 0xFF0F), (0xFF1A, 0xFF20), (0xFF3B, 0xFF40), (0xFF5B, 0xFF65),
    (0xFFE0, 0xFFFF), (0x1D000, 0x1D1FF), (0x1F000, 0x1F0FF), (0x1F10D, 0x1F12F),
    (0x1F18A, 0x1FBEF), (0xE0000, 0x10FFFF)]

def isAlphanumeric (c : Char) : Bool :=
  c.isAlphanum ||
    (0x80 ≤ c.toNat && !signRanges.any fun (first, last) => first ≤ c.toNat && c.toNat ≤ last)

end BotConsole.Text
