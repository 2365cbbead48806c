import ShiftReduce.Text.CodeRange

/-!
# Characters that stand for ASCII text

Many characters from U+0080 on are variants of ASCII characters or of short ASCII words: letters
and digits that are raised, enclosed, of another width or of a mathematical script, ligatures,
numerals, spaces, abbreviations of units. With capitals made small, the ASCII text that such a
character stands for is its compatibility form in Unicode version 3.2. Some characters stand for
nothing at all. Those whose form holds one of the marks that divide a reference are left out.
-/

namespace ShiftReduce.Text

/-- The characters that stand for nothing. -/
def ignoredRanges : List CodeRange :=
  [(0xAD, 0xAD), (0x34F, 0x34F), (0x1806, 0x1806), (0x180B, 0x180D), (0x200B, 0x200D),
   (0x2060, 0x2060), (0xFE00, 0xFE0F), (0xFEFF, 0xFEFF)]

/-- Runs of characters that stand for one ASCII character each: the first and the last of a run,
and what the first stands for. Those behind the first stand for the characters that follow. -/
def asciiRuns : List (Nat × Nat × Char) :=
  [(0xA0, 0xA0, ' '), (0xAA, 0xAA, 'a'), (0xB2, 0xB3, '2'), (0xB9, 0xB9, '1'), (0xBA, 0xBA, 'o'),
   (0x17F, 0x17F, 's'), (0x2B0, 0x2B0, 'h'), (0x2B2, 0x2B2, 'j'), (0x2B3, 0x2B3, 'r'),
   (0x2B7, 0x2B7, 'w'), (0x2B8, 0x2B8, 'y'), (0x2E1, 0x2E1, 'l'), (0x2E2, 0x2E2, 's'),
   (0x2E3, 0x2E3, 'x'), (0x37E, 0x37E, ';'), (0x1FEF, 0x1FEF, '\x60'), (0x2000, 0x2000, ' '),
   (0x2001, 0x2001, ' '), (0x2002, 0x2002, ' '), (0x2003, 0x2003, ' '), (0x2004, 0x2004, ' '),
   (0x2005, 0x2005, ' '), (0x2006, 0x2006, ' '), (0x2007, 0x2007, ' '), (0x2008, 0x2008, ' '),
   (0x2009, 0x2009, ' '), (0x200A, 0x200A, ' '), (0x2024, 0x2024, '.'), (0x202F, 0x202F, ' '),
   (0x205F, 0x205F, ' '), (0x2070, 0x2070, '0'), (0x2071, 0x2071, 'i'), (0x2074, 0x2079, '4'),
   (0x207A, 0x207A, '+'), (0x207C, 0x207C, '='), (0x207D, 0x207E, '('), (0x207F, 0x207F, 'n'),
   (0x2080, 0x2089, '0'), (0x208A, 0x208A, '+'), (0x208C, 0x208C, '='), (0x208D, 0x208E, '('),
   (0x2102, 0x2102, 'c'), (0x210A, 0x210B, 'g'), (0x210C, 0x210C, 'h'), (0x210D, 0x210D, 'h'),
   (0x210E, 0x210E, 'h'), (0x2110, 0x2110, 'i'), (0x2111, 0x2111, 'i'), (0x2112, 0x2112, 'l'),
   (0x2113, 0x2113, 'l'), (0x2115, 0x2115, 'n'), (0x2119, 0x211B, 'p'), (0x211C, 0x211C, 'r'),
   (0x211D, 0x211D, 'r'), (0x2124, 0x2124, 'z'), (0x2128, 0x2128, 'z'), (0x212A, 0x212A, 'k'),
   (0x212C, 0x212D, 'b'), (0x212F, 0x212F, 'e'), (0x2130, 0x2131, 'e'), (0x2133, 0x2133, 'm'),
   (0x2134, 0x2134, 'o'), (0x2139, 0x2139, 'i'), (0x2145, 0x2145, 'd'), (0x2146, 0x2147, 'd'),
   (0x2148, 0x2149, 'i'), (0x2160, 0x2160, 'i'), (0x2164, 0x2164, 'v'), (0x2169, 0x2169, 'x'),
   (0x216C, 0x216C, 'l'), (0x216D, 0x216E, 'c'), (0x216F, 0x216F, 'm'), (0x2170, 0x2170, 'i'),
   (0x2174, 0x2174, 'v'), (0x2179, 0x2179, 'x'), (0x217C, 0x217C, 'l'), (0x217D, 0x217E, 'c'),
   (0x217F, 0x217F, 'm'), (0x2460, 0x2468, '1'), (0x24B6, 0x24CF, 'a'), (0x24D0, 0x24E9, 'a'),
   (0x24EA, 0x24EA, '0'), (0x3000, 0x3000, ' '), (0xFB29, 0xFB29, '+'), (0xFE33, 0xFE33, '_'),
   (0xFE34, 0xFE34, '_'), (0xFE35, 0xFE36, '('), (0xFE37, 0xFE37, '{'), (0xFE38, 0xFE38, '}'),
   (0xFE4D, 0xFE4D, '_'), (0xFE4E, 0xFE4E, '_'), (0xFE4F, 0xFE4F, '_'), (0xFE50, 0xFE50, ','),
   (0xFE52, 0xFE52, '.'), (0xFE54, 0xFE54, ';'), (0xFE57, 0xFE57, '!'), (0xFE59, 0xFE5A, '('),
   (0xFE5B, 0xFE5B, '{'), (0xFE5C, 0xFE5C, '}'), (0xFE60, 0xFE60, '&'), (0xFE61, 0xFE62, '*'),
   (0xFE63, 0xFE63, '-'), (0xFE64, 0xFE64, '<'), (0xFE65, 0xFE65, '>'), (0xFE66, 0xFE66, '='),
   (0xFE68, 0xFE68, '\\'), (0xFE69, 0xFE6A, '$'), (0xFF01, 0xFF02, '!'), (0xFF04, 0xFF0E, '$'),
   (0xFF10, 0xFF19, '0'), (0xFF1B, 0xFF1E, ';'), (0xFF21, 0xFF3A, 'a'), (0xFF3B, 0xFF5E, '['),
   (0x1D400, 0x1D419, 'a'), (0x1D41A, 0x1D433, 'a'), (0x1D434, 0x1D44D, 'a'),
   (0x1D44E, 0x1D454, 'a'), (0x1D456, 0x1D467, 'i'), (0x1D468, 0x1D481, 'a'),
   (0x1D482, 0x1D49B, 'a'), (0x1D49C, 0x1D49C, 'a'), (0x1D49E, 0x1D49F, 'c'),
   (0x1D4A2, 0x1D4A2, 'g'), (0x1D4A5, 0x1D4A6, 'j'), (0x1D4A9, 0x1D4AC, 'n'),
   (0x1D4AE, 0x1D4B5, 's'), (0x1D4B6, 0x1D4B9, 'a'), (0x1D4BB, 0x1D4BB, 'f'),
   (0x1D4BD, 0x1D4C0, 'h'), (0x1D4C2, 0x1D4C3, 'm'), (0x1D4C5, 0x1D4CF, 'p'),
   (0x1D4D0, 0x1D4E9, 'a'), (0x1D4EA, 0x1D503, 'a'), (0x1D504, 0x1D505, 'a'),
   (0x1D507, 0x1D50A, 'd'), (0x1D50D, 0x1D514, 'j'), (0x1D516, 0x1D51C, 's'),
   (0x1D51E, 0x1D537, 'a'), (0x1D538, 0x1D539, 'a'), (0x1D53B, 0x1D53E, 'd'),
   (0x1D540, 0x1D544, 'i'), (0x1D546, 0x1D546, 'o'), (0x1D54A, 0x1D550, 's'),
   (0x1D552, 0x1D56B, 'a'), (0x1D56C, 0x1D585, 'a'), (0x1D586, 0x1D59F, 'a'),
   (0x1D5A0, 0x1D5B9, 'a'), (0x1D5BA, 0x1D5D3, 'a'), (0x1D5D4, 0x1D5ED, 'a'),
   (0x1D5EE, 0x1D607, 'a'), (0x1D608, 0x1D621, 'a'), (0x1D622, 0x1D63B, 'a'),
   (0x1D63C, 0x1D655, 'a'), (0x1D656, 0x1D66F, 'a'), (0x1D670, 0x1D689, 'a'),
   (0x1D68A, 0x1D6A3, 'a'), (0x1D7CE, 0x1D7D7, '0'), (0x1D7D8, 0x1D7E1, '0'),
   (0x1D7E2, 0x1D7EB, '0'), (0x1D7EC, 0x1D7F5, '0'), (0x1D7F6, 0x1D7FF, '0')]

/-- The characters that stand for several ASCII characters. -/
def asciiWords : List (Nat × String) :=
  [(0xDF, "ss"), (0x132, "ij"), (0x133, "ij"), (0x1C7, "lj"), (0x1C8, "lj"), (0x1C9, "lj"),
   (0x1CA, "nj"), (0x1CB, "nj"), (0x1CC, "nj"), (0x1F1, "dz"), (0x1F2, "dz"), (0x1F3, "dz"),
   (0x1E9E, "ss"), (0x2025, ".."), (0x2026, "..."), (0x203C, "!!"), (0x20A8, "rs"),
   (0x2116, "no"), (0x2120, "sm"), (0x2121, "tel"), (0x2122, "tm"), (0x2161, "ii"),
   (0x2162, "iii"), (0x2163, "iv"), (0x2165, "vi"), (0x2166, "vii"), (0x2167, "viii"),
   (0x2168, "ix"), (0x216A, "xi"), (0x216B, "xii"), (0x2171, "ii"), (0x2172, "iii"),
   (0x2173, "iv"), (0x2175, "vi"), (0x2176, "vii"), (0x2177, "viii"), (0x2178, "ix"),
   (0x217A, "xi"), (0x217B, "xii"), (0x2469, "10"), (0x246A, "11"), (0x246B, "12"),
   (0x246C, "13"), (0x246D, "14"), (0x246E, "15"), (0x246F, "16"), (0x2470, "17"),
   (0x2471, "18"), (0x2472, "19"), (0x2473, "20"), (0x2474, "(1)"), (0x2475, "(2)"),
   (0x2476, "(3)"), (0x2477, "(4)"), (0x2478, "(5)"), (0x2479, "(6)"), (0x247A, "(7)"),
   (0x247B, "(8)"), (0x247C, "(9)"), (0x247D, "(10)"), (0x247E, "(11)"), (0x247F, "(12)"),
   (0x2480, "(13)"), (0x2481, "(14)"), (0x2482, "(15)"), (0x2483, "(16)"), (0x2484, "(17)"),
   (0x2485, "(18)"), (0x2486, "(19)"), (0x2487, "(20)"), (0x2488, "1."), (0x2489, "2."),
   (0x248A, "3."), (0x248B, "4."), (0x248C, "5."), (0x248D, "6."), (0x248E, "7."),
   (0x248F, "8."), (0x2490, "9."), (0x2491, "10."), (0x2492, "11."), (0x2493, "12."),
   (0x2494, "13."), (0x2495, "14."), (0x2496, "15."), (0x2497, "16."), (0x2498, "17."),
   (0x2499, "18."), (0x249A, "19."), (0x249B, "20."), (0x249C, "(a)"), (0x249D, "(b)"),
   (0x249E, "(c)"), (0x249F, "(d)"), (0x24A0, "(e)"), (0x24A1, "(f)"), (0x24A2, "(g)"),
   (0x24A3, "(h)"), (0x24A4, "(i)"), (0x24A5, "(j)"), (0x24A6, "(k)"), (0x24A7, "(l)"),
   (0x24A8, "(m)"), (0x24A9, "(n)"), (0x24AA, "(o)"), (0x24AB, "(p)"), (0x24AC, "(q)"),
   (0x24AD, "(r)"), (0x24AE, "(s)"), (0x24AF, "(t)"), (0x24B0, "(u)"), (0x24B1, "(v)"),
   (0x24B2, "(w)"), (0x24B3, "(x)"), (0x24B4, "(y)"), (0x24B5, "(z)"), (0x2A75, "=="),
   (0x2A76, "==="), (0x3251, "21"), (0x3252, "22"), (0x3253, "23"), (0x3254, "24"),
   (0x3255, "25"), (0x3256, "26"), (0x3257, "27"), (0x3258, "28"), (0x3259, "29"),
   (0x325A, "30"), (0x325B, "31"), (0x325C, "32"), (0x325D, "33"), (0x325E, "34"),
   (0x325F, "35"), (0x32B1, "36"), (0x32B2, "37"), (0x32B3, "38"), (0x32B4, "39"),
   (0x32B5, "40"), (0x32B6, "41"), (0x32B7, "42"), (0x32B8, "43"), (0x32B9, "44"),
   (0x32BA, "45"), (0x32BB, "46"), (0x32BC, "47"), (0x32BD, "48"), (0x32BE, "49"),
   (0x32BF, "50"), (0x3371, "hpa"), (0x3372, "da"), (0x3373, "au"), (0x3374, "bar"),
   (0x3375, "ov"), (0x3376, "pc"), (0x3380, "pa"), (0x3381, "na"), (0x3383, "ma"),
   (0x3384, "ka"), (0x3385, "kb"), (0x3386, "mb"), (0x3387, "gb"), (0x3388, "cal"),
   (0x3389, "kcal"), (0x338A, "pf"), (0x338B, "nf"), (0x338E, "mg"), (0x338F, "kg"),
   (0x3390, "hz"), (0x3391, "khz"), (0x3392, "mhz"), (0x3393, "ghz"), (0x3394, "thz"),
   (0x3396, "ml"), (0x3397, "dl"), (0x3398, "kl"), (0x3399, "fm"), (0x339A, "nm"),
   (0x339C, "mm"), (0x339D, "cm"), (0x339E, "km"), (0x339F, "mm2"), (0x33A0, "cm2"),
   (0x33A1, "m2"), (0x33A2, "km2"), (0x33A3, "mm3"), (0x33A4, "cm3"), (0x33A5, "m3"),
   (0x33A6, "km3"), (0x33A9, "pa"), (0x33AA, "kpa"), (0x33AB, "mpa"), (0x33AC, "gpa"),
   (0x33AD, "rad"), (0x33B0, "ps"), (0x33B1, "ns"), (0x33B3, "ms"), (0x33B4, "pv"),
   (0x33B5, "nv"), (0x33B7, "mv"), (0x33B8, "kv"), (0x33B9, "mv"), (0x33BA, "pw"),
   (0x33BB, "nw"), (0x33BD, "mw"), (0x33BE, "kw"), (0x33BF, "mw"), (0x33C2, "a.m."),
   (0x33C3, "bq"), (0x33C4, "cc"), (0x33C5, "cd"), (0x33C7, "co."), (0x33C8, "db"),
   (0x33C9, "gy"), (0x33CA, "ha"), (0x33CB, "hp"), (0x33CC, "in"), (0x33CD, "kk"),
   (0x33CE, "km"), (0x33CF, "kt"), (0x33D0, "lm"), (0x33D1, "ln"), (0x33D2, "log"),
   (0x33D3, "lx"), (0x33D4, "mb"), (0x33D5, "mil"), (0x33D6, "mol"), (0x33D7, "ph"),
   (0x33D8, "p.m."), (0x33D9, "ppm"), (0x33DA, "pr"), (0x33DB, "sr"), (0x33DC, "sv"),
   (0x33DD, "wb"), (0xFB00, "ff"), (0xFB01, "fi"), (0xFB02, "fl"), (0xFB03, "ffi"),
   (0xFB04, "ffl"), (0xFB05, "st"), (0xFB06, "st"), (0xFE30, "..")]

end ShiftReduce.Text
