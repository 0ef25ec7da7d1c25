/-!
# Code points by their properties

Which code points from `0x80` on are letters or digits, and which may stand in an identifier. A
property is given by its runs: how many code points in a row lack it, from zero on, then how many
have it, and so on in turn.
-/
namespace Xref.Text

/-- The closed ranges of a property with these runs from `start` on. -/
def rangesOfRuns (start : Nat) : List Nat → List (Nat × Nat)
  | gap :: length :: rest =>
    (start + gap, start + gap + length - 1) :: rangesOfRuns (start + gap + length) rest
  | _ => []

/-- The code points with the Unicode property `XID_Start`. -/
def identifierStartRanges : List (Nat × Nat) :=
  rangesOfRuns 0
    [170,1,10,1,4,1,5,23,1,31,1,458,4,12,14,5,7,1,1,1,129,5,1,2,3,3,1,1,6,1,1,3,1,1,1,20,1,83,1,139,
     8,166,1,38,2,1,6,41,71,27,4,4,45,43,35,2,1,99,1,1,15,2,7,2,10,3,2,1,16,1,1,30,29,89,11,1,24,33,
     9,2,4,1,5,22,4,1,9,1,3,1,23,25,7,11,5,24,1,6,17,42,58,54,3,1,18,1,7,10,15,16,4,8,2,2,2,22,1,7,
     1,1,3,4,3,1,16,1,13,2,1,3,14,2,10,1,8,6,4,2,2,22,1,7,1,2,1,2,1,2,31,4,1,1,19,3,16,9,1,3,1,22,1,
     7,1,2,1,5,3,1,18,1,15,2,23,1,11,8,2,2,2,22,1,7,1,2,1,5,3,1,30,2,1,3,15,1,17,1,1,6,3,3,1,4,3,2,
     1,1,1,2,3,2,3,3,3,12,22,1,52,8,1,3,1,23,1,16,3,1,26,3,2,1,2,2,30,1,4,8,1,3,1,23,1,10,1,5,3,1,
     31,2,1,2,15,2,17,9,1,3,1,41,2,1,16,1,5,3,8,3,24,6,5,18,3,24,1,9,1,1,2,7,58,48,1,1,13,7,58,2,1,
     1,1,5,1,24,1,1,1,10,1,1,10,1,2,5,1,1,21,4,32,1,63,8,1,36,27,5,115,43,20,1,16,6,4,4,3,1,3,2,7,3,
     4,13,12,1,17,38,1,1,5,1,2,43,1,333,1,4,2,7,1,1,1,4,2,41,1,4,2,33,1,4,2,7,1,1,1,4,2,15,1,57,1,4,
     2,67,37,16,16,86,2,6,3,620,2,17,1,26,5,75,3,11,7,18,13,19,14,18,14,13,1,3,15,52,35,1,4,1,67,89,
     7,41,1,1,5,70,10,31,49,30,2,5,11,44,4,26,54,23,9,53,82,1,93,47,17,8,54,30,13,2,10,44,26,36,41,
     3,10,36,2,9,7,43,2,3,41,4,1,6,1,2,3,1,5,192,64,278,2,6,2,38,2,6,2,8,1,1,1,1,1,1,1,31,2,53,1,7,
     1,1,3,3,1,7,3,4,2,6,4,13,5,3,1,7,116,1,13,1,16,13,101,1,4,1,2,10,1,1,2,6,6,1,1,1,1,1,1,16,2,4,
     5,5,4,1,17,41,2679,229,6,4,3,2,12,38,1,1,5,1,2,56,7,1,16,23,9,7,1,7,1,7,1,7,1,7,1,7,1,7,1,7,
     550,3,25,9,7,5,2,5,4,86,6,3,1,90,1,4,5,43,1,94,17,32,48,16,512,6592,64,22157,67,46,2,269,3,16,
     10,2,20,47,16,31,2,80,39,9,2,103,2,64,5,2,1,1,1,5,24,16,1,3,1,4,1,23,29,52,14,50,62,6,3,1,1,2,
     11,28,10,23,25,29,7,47,28,1,16,5,1,10,10,5,1,41,23,3,1,8,20,23,3,1,3,50,1,1,3,2,2,5,2,1,1,1,24,
     3,2,11,7,3,12,6,2,6,2,6,9,7,1,7,1,43,1,14,6,115,29,11172,12,23,4,49,8452,366,2,106,38,7,12,5,5,
     1,1,10,1,13,1,5,1,1,1,2,1,2,1,108,33,139,6,218,18,64,2,54,40,10,119,1,1,1,3,1,1,1,1,1,1,1,1,
     126,36,26,6,26,11,56,2,31,3,6,2,6,2,6,2,3,35,12,1,26,1,19,1,2,1,15,2,14,34,123,69,53,267,29,3,
     49,47,32,13,30,5,38,10,30,2,36,4,8,1,5,42,158,18,36,4,36,4,40,8,52,12,11,1,15,1,7,1,2,1,11,1,
     15,1,7,1,2,67,311,9,22,10,8,24,6,1,42,1,9,69,6,2,1,1,44,1,2,3,1,2,23,10,23,9,31,65,19,1,2,10,
     22,10,26,70,56,6,2,64,1,15,4,1,3,1,29,42,29,3,29,35,8,1,28,27,54,10,22,10,19,13,18,110,73,55,
     51,13,51,13,36,348,42,6,2,78,29,10,1,8,22,42,18,46,21,27,23,12,53,57,2,2,1,13,45,32,25,26,36,
     29,1,2,1,8,35,3,1,12,48,14,4,21,1,1,1,35,18,1,25,19,2,63,7,1,1,1,4,1,15,1,10,7,47,38,8,2,2,2,
     22,1,7,1,2,1,5,3,1,18,1,12,5,158,53,18,4,20,3,30,48,20,2,1,1,184,47,41,4,36,48,20,1,59,43,13,1,
     71,27,37,7,185,44,116,64,31,8,2,1,2,8,1,2,1,24,15,1,1,1,94,8,2,39,16,1,1,1,28,1,10,40,7,1,21,1,
     11,46,19,1,18,73,263,9,1,37,17,1,49,30,112,7,1,2,1,38,21,1,25,6,1,2,1,32,14,1,327,19,15,1,1,13,
     1,34,124,1,79,922,102,111,17,196,2636,97,15,1072,17,6,4025,583,8633,569,7,31,17,79,17,30,18,48,
     16,4,31,21,5,19,688,64,128,75,5,1,66,13,64,2,1,1,28,6136,8,1238,42,9,8935,4,1,7,1,2,1,291,15,1,
     29,3,2,1,14,4,8,396,2308,107,5,13,3,9,7,10,5990,85,1,71,1,2,2,1,2,2,2,4,1,12,1,1,1,7,1,65,1,4,
     2,8,1,7,1,28,1,4,1,5,1,1,3,7,1,340,2,25,1,25,1,31,1,25,1,31,1,25,1,31,1,25,1,31,1,25,1,8,1844,
     31,6,6,261,62,146,45,10,7,16,1,321,30,18,44,484,28,756,7,1,4,1,2,1,15,1,197,59,68,7,1,1204,4,1,
     27,1,2,1,1,2,1,1,10,1,4,1,1,1,1,6,1,4,1,1,1,1,1,1,3,1,2,1,1,2,1,1,1,1,1,1,1,1,1,1,2,1,1,2,4,1,
     7,1,4,1,4,1,1,1,10,1,17,5,3,1,5,1,17,4420,42720,32,4154,6,222,2,5762,14,7473,15,622,2466,542,
     1506,4939,5,4192]

/-- Digits and alphabetic marks: alphanumeric, and in an identifier after its first character. -/
def innerRanges : List (Nat × Nat) :=
  rangesOfRuns 0
    [837,1,29,13,576,14,1,1,1,2,1,2,1,1,72,11,48,13,1,17,6,1,101,7,4,4,2,2,4,1,2,10,23,1,30,16,102,
     11,15,10,76,2,3,9,1,3,1,4,167,12,3,7,6,20,54,2,2,15,1,2,5,3,10,2,2,10,17,3,58,7,2,2,2,2,10,1,
     10,2,2,10,17,3,58,5,4,2,2,2,4,1,20,12,3,1,11,3,58,8,1,3,1,2,21,2,2,10,10,3,4,3,58,7,2,2,2,2,9,
     2,10,2,2,10,18,1,59,5,3,3,1,3,10,1,14,10,16,5,57,7,1,3,1,3,8,2,11,2,2,10,17,3,58,7,1,3,1,3,8,2,
     11,2,2,10,3,1,12,4,58,7,1,3,1,3,10,1,10,2,2,10,17,3,75,6,1,1,1,8,6,10,2,2,61,1,1,8,18,1,2,10,
     87,1,1,7,1,2,16,1,2,10,70,10,71,19,9,11,1,36,110,12,1,1,2,4,1,10,12,4,4,3,1,3,2,7,3,4,13,12,1,
     15,715,9,928,2,30,2,30,2,30,2,66,19,23,10,38,10,143,1,118,12,4,9,13,10,128,11,60,5,57,10,2,20,
     11,10,6,10,37,2,11,3,49,5,48,15,12,10,38,3,30,9,2,2,2,10,45,11,50,19,9,10,6,10,377,34,4075,32,
     30752,10,74,8,34,2,354,1,8,1,23,5,88,2,50,16,1,1,10,10,37,11,28,5,28,12,45,4,48,12,16,10,11,1,
     10,10,47,14,12,1,8,2,2,10,33,3,50,1,1,3,2,2,5,1,44,5,5,1,237,8,5,10,20260,1,1009,10,132,2,982,
     5,293,10,1367,3,1,2,5,4,788,4,8,10,369,2,339,3,53,14,32,10,3,2,11,3,45,9,9,1,45,10,6,3,36,12,3,
     10,5,2,57,3,48,13,14,12,82,9,2,1,6,1,2,1,157,10,7,10,6,4,58,7,2,2,2,2,10,1,10,2,209,13,1,3,10,
     10,86,18,14,10,213,7,2,7,29,2,82,15,1,1,15,10,81,11,10,10,83,14,5,10,242,13,167,10,70,6,1,2,2,
     2,3,1,1,1,13,10,119,7,2,6,4,1,28,10,42,5,1,4,18,11,46,14,407,8,1,7,17,10,56,22,1,14,122,6,3,1,
     1,2,1,3,1,1,3,1,8,10,48,5,1,2,1,4,9,10,329,4,9,2,1,1,48,7,3,3,15,10,19206,10,86,10,134,10,1013,
     1,1,55,7,4,93,2,19628,1,6959,50,2048,7,1,17,2,7,1,2,1,5,100,1,176,10,422,10,502,10,1101,1,8,10,
     4758,10]

/-- Marks that are not alphabetic, which an identifier takes after its first character. -/
def markRanges : List (Nat × Nat) :=
  rangesOfRuns 0
    [183,1,584,69,1,29,36,1,251,5,265,31,168,1,134,2,9,3,83,11,160,9,9,1,26,2,19,1,43,3,60,8,42,10,
     12,2,8,6,76,1,16,1,3,4,103,1,16,1,48,1,61,1,16,1,110,1,16,1,47,3,60,1,16,1,7,1,119,1,110,1,16,
     1,110,1,16,1,109,2,16,1,124,1,124,6,1,1,107,1,13,5,1,1,73,2,27,1,1,1,1,1,4,2,68,1,1,2,62,1,112,
     1,1,2,802,3,948,2,30,1,127,2,19,11,9,1,45,3,1,1,297,3,292,1,20,8,2,1,48,14,3,11,104,1,15,1,38,
     9,54,2,58,1,11,2,67,1,152,3,1,21,4,1,6,1,2,3,198,19,34,11,524,2,49,2,19,1,123,13,4,1,3,12,3070,
     3,141,1,682,6,105,2,96,1,30067,1,12,2,114,2,276,1,37,1,151,1,27,18,57,3,37,1,95,1,12,1,254,1,1,
     1,52,1,245,2,21010,16,16,16,3,2,24,3,239,1,37,1,663,1,226,1,1879,3,4,1,165,2,1046,3,70,11,49,4,
     192,1,41,1,14,1,57,2,120,2,62,1,76,1,8,4,104,2,178,2,80,2,16,1,24,7,3,5,205,1,3,1,23,1,99,2,
     251,2,126,1,118,2,115,1,269,2,258,2,4,1,156,1,82,2,18,1,80,2,421,1,258,1,1,2,81,1,425,2,5373,1,
     6,15,13978,5,59,7,1197,1,19640,1,4706,46,2,23,542,5,3,6,8,8,2,7,30,4,148,3,1979,55,4,50,8,1,14,
     1,22,5,1,15,1664,7,375,1,61,4,508,4,992,7,109,3,1,3,792501,240]

/-- Alphabetic and numeric code points that no identifier has. -/
def strayRanges : List (Nat × Nat) :=
  rangesOfRuns 0
    [178,2,5,1,2,3,699,1,1308,1,348,6,376,6,120,3,133,7,217,7,17,9,433,10,1086,11,1139,10,1167,2,
     997,1,3,6,6,10,198,16,41,1,726,60,26,74,630,30,1385,1,305,1,866,4,138,10,30,8,1,15,32,10,39,15,
     29963,3,12,3,83,6,21544,6,406,2,116,1,1,1,1,1,1,1,1,1,1,1,1,1,1,1,648,45,65,4,17,2,341,27,36,4,
     668,52,612,8,25,7,39,9,75,5,22,6,160,2,2,16,2,46,64,9,52,2,30,3,75,5,104,8,24,8,41,7,330,6,64,
     38,3,1,5,23,218,31,67,3,55,1,32,10,42,4,112,7,134,20,379,20,395,10,1,1,2,1,1,38,1,10,1,1,2,1,1,
     4,1,2,3,1,1,1,764,20,86,2,430,9,717,33,15,10,96,19,851,21,5259,3995,7429,47,1,10,2593,7,478,45,
     3,10,262,23,7784,1,16368,10,1478,20,12,20,108,25,4695,30,2,11,716,9,929,59,1,3,1,4,76,45,1,15,
     962,13,35,26,6,26,6,26]

/-- The code points with the Unicode property `XID_Continue`. -/
def identifierPartRanges : List (Nat × Nat) := identifierStartRanges ++ innerRanges ++ markRanges

end Xref.Text
