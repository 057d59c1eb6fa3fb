/-! # Unicode properties

Sets of code points. A set is given by the lengths of its gaps and runs in turn: so many code points are not in the set,
so many are, and so on. -/

set_option maxRecDepth 8000

namespace Polyview.Text.Table

/-- The property ID_Start, above the ASCII range. -/
def identifierStart : List Nat := [
  170,1,10,1,4,1,5,23,1,31,1,458,4,12,14,5,7,1,1,1,129,5,1,2,2,4,1,1,6,1,1,3,1,1,1,20,1,83,1,139,8,166,1,38,2,1,6,41,71,
  27,4,4,45,43,35,2,1,99,1,1,15,2,7,2,10,3,2,1,16,1,1,30,29,89,11,1,24,33,9,2,4,1,5,22,4,1,9,1,3,1,23,25,7,11,5,24,1,7,
  16,42,58,54,3,1,18,1,7,10,15,16,4,8,2,2,2,22,1,7,1,1,3,4,3,1,16,1,13,2,1,3,14,2,10,1,8,6,4,2,2,22,1,7,1,2,1,2,1,2,31,
  4,1,1,19,3,16,9,1,3,1,22,1,7,1,2,1,5,3,1,18,1,15,2,23,1,11,8,2,2,2,22,1,7,1,2,1,5,3,1,30,2,1,3,15,1,17,1,1,6,3,3,1,4,
  3,2,1,1,1,2,3,2,3,3,3,12,22,1,52,8,1,3,1,23,1,16,3,1,26,3,1,2,2,2,30,1,4,8,1,3,1,23,1,10,1,5,3,1,30,3,1,2,15,2,17,9,1,
  3,1,41,2,1,16,1,5,3,8,3,24,6,5,18,3,24,1,9,1,1,2,7,58,48,1,2,12,7,58,2,1,1,1,5,1,24,1,1,1,10,1,2,9,1,2,5,1,1,21,4,32,
  1,63,8,1,36,27,5,115,43,20,1,16,6,4,4,3,1,3,2,7,3,4,13,12,1,17,38,1,1,5,1,2,43,1,333,1,4,2,7,1,1,1,4,2,41,1,4,2,33,1,
  4,2,7,1,1,1,4,2,15,1,57,1,4,2,67,37,16,16,86,2,6,3,620,2,17,1,26,5,75,3,11,7,18,13,19,14,18,14,13,1,3,15,52,35,1,4,1,
  67,89,7,41,1,1,5,70,10,31,49,30,2,5,11,44,4,26,54,23,9,53,82,1,93,47,17,8,54,30,13,2,10,44,26,36,41,3,10,36,2,11,5,43,
  2,3,41,4,1,6,1,2,3,1,5,192,64,278,2,6,2,38,2,6,2,8,1,1,1,1,1,1,1,31,2,53,1,7,1,1,3,3,1,7,3,4,2,6,4,13,5,3,1,7,116,1,
  13,1,16,13,101,1,4,1,2,10,1,1,2,6,6,1,1,1,1,1,1,16,2,4,5,5,4,1,17,41,2679,229,6,4,3,2,12,38,1,1,5,1,2,56,7,1,16,23,9,
  7,1,7,1,7,1,7,1,7,1,7,1,7,1,7,550,3,25,9,7,5,2,5,4,86,4,5,1,90,1,4,5,43,1,94,17,32,48,16,512,6592,64,22157,67,46,2,
  269,3,16,10,2,20,47,16,31,2,80,39,9,2,103,2,82,20,17,1,3,1,4,1,23,29,52,14,50,62,6,3,1,1,2,11,28,10,23,25,29,7,47,28,
  1,16,5,1,10,10,5,1,41,23,3,1,8,20,23,3,1,3,50,1,1,3,2,2,5,2,1,1,1,24,3,2,11,7,3,12,6,2,6,2,6,9,7,1,7,1,43,1,14,6,115,
  29,11172,12,23,4,49,8452,366,2,106,38,7,12,5,5,1,1,10,1,13,1,5,1,1,1,2,1,2,1,108,33,363,18,64,2,54,40,12,116,5,1,135,
  36,26,6,26,11,89,3,6,2,6,2,6,2,3,35,12,1,26,1,19,1,2,1,15,2,14,34,123,69,53,267,29,3,49,47,32,13,30,5,38,10,30,2,36,4,
  8,1,5,42,158,18,36,4,36,4,40,8,52,12,11,1,15,1,7,1,2,1,11,1,15,1,7,1,2,3,52,12,311,9,22,10,8,24,6,1,42,1,9,69,6,2,1,1,
  44,1,2,3,1,2,23,10,23,9,31,65,19,1,2,10,22,10,26,6,26,38,56,6,2,64,1,15,4,1,3,1,29,42,29,3,29,35,8,1,28,27,54,10,22,
  10,19,13,18,110,73,55,51,13,51,13,36,38,28,9,23,250,42,6,2,16,6,56,29,10,1,8,22,42,18,46,21,27,23,12,53,57,2,2,1,13,
  45,32,25,26,36,29,1,2,1,8,35,3,1,12,48,14,4,21,1,1,1,35,18,1,25,19,2,63,7,1,1,1,4,1,15,1,10,7,47,38,8,2,2,2,22,1,7,1,
  2,1,5,3,1,18,1,12,5,30,10,1,1,2,1,1,38,1,1,25,1,1,1,44,53,18,4,20,3,30,48,20,2,1,1,184,47,41,4,36,48,20,1,59,43,13,1,
  71,27,37,7,185,44,116,64,31,8,2,1,2,8,1,2,1,24,15,1,1,1,94,8,2,39,16,1,1,1,28,1,10,40,7,1,21,1,11,46,19,1,18,73,199,
  33,31,9,1,37,17,1,49,30,112,7,1,2,1,38,21,1,25,6,1,2,1,32,14,1,23,44,260,19,15,1,1,13,1,34,124,1,79,922,102,111,17,
  196,2636,97,15,1072,17,6,25,3995,5,583,6841,30,1762,569,7,31,17,79,17,30,18,48,16,4,31,21,5,19,432,45,211,64,32,25,2,
  25,44,75,5,1,66,13,64,2,1,1,14,5,9,7382,41,32,97,115,8701,4,1,7,1,2,1,291,15,1,29,3,2,1,14,4,8,396,2308,107,5,13,3,9,
  7,10,5990,85,1,71,1,2,2,1,2,2,2,4,1,12,1,1,1,7,1,65,1,4,2,8,1,7,1,28,1,4,1,5,1,1,3,7,1,340,2,25,1,25,1,31,1,25,1,31,1,
  25,1,31,1,25,1,31,1,25,1,8,1844,31,6,6,261,62,146,45,10,7,16,1,321,30,18,44,484,28,228,30,2,1,207,31,1,3,1,2,1,7,2,5,
  9,2,224,7,1,4,1,2,1,15,1,197,59,68,7,1,1204,4,1,27,1,2,1,1,2,1,1,10,1,4,1,1,1,1,6,1,4,1,1,1,1,1,1,3,1,2,1,1,2,1,1,1,1,
  1,1,1,1,1,1,2,1,1,2,4,1,7,1,4,1,4,1,1,1,10,1,17,5,3,1,5,1,17,4420,42720,32,4382,2,5774,2,7473,15,622,2466,542,1506,
  4939,5,8490]

/-- What may continue an identifier, but is no decimal digit and does not start one. -/
def identifierMark : List Nat := [
  183,1,584,112,23,1,251,5,265,45,1,1,1,2,1,2,1,1,72,11,48,21,16,1,101,7,2,6,2,2,1,4,35,1,30,27,91,11,58,9,9,1,24,4,1,9,
  1,3,1,5,43,3,59,9,42,24,1,33,54,3,1,18,1,7,10,2,29,3,56,1,1,7,2,2,2,3,9,1,10,2,26,1,2,3,56,1,1,5,4,2,2,3,3,1,30,2,3,1,
  11,3,56,1,1,8,1,3,1,3,20,2,22,6,1,3,56,1,1,7,2,2,2,3,7,3,10,2,30,1,59,5,3,3,1,4,9,1,40,5,55,1,1,7,1,3,1,4,7,2,11,2,29,
  3,56,1,1,7,1,3,1,4,7,2,11,2,15,1,12,4,55,2,1,7,1,3,1,4,9,1,10,2,29,3,70,1,4,6,1,1,1,8,18,2,61,1,2,7,12,8,98,1,2,9,11,
  7,73,2,27,1,1,1,1,1,4,2,49,20,1,2,5,11,1,36,9,1,100,20,23,4,4,3,1,3,2,7,3,4,13,12,1,1,10,4,703,3,9,9,928,4,28,3,29,2,
  30,2,64,32,9,1,45,3,1,1,153,1,118,12,4,12,158,1,60,5,57,10,1,29,2,1,48,14,1,31,2,12,20,5,47,17,38,9,12,3,30,13,56,14,
  48,20,152,3,1,21,4,1,6,1,2,3,198,64,524,2,49,2,19,1,123,13,4,1,3,12,3070,3,141,1,96,32,554,6,105,2,96,1,30067,1,4,10,
  32,2,80,2,272,1,3,1,4,1,23,5,4,1,83,2,50,18,26,18,13,1,38,8,25,13,44,4,47,14,36,1,67,14,12,1,8,2,45,3,50,1,1,3,2,2,5,
  2,1,1,41,5,5,2,236,8,1,2,20272,1,737,16,16,16,3,2,24,3,239,1,37,1,663,1,226,1,149,5,1670,3,1,2,5,4,40,3,4,1,165,2,573,
  4,65,5,317,2,77,6,70,11,49,4,122,3,53,15,41,1,2,2,10,4,45,11,7,1,61,3,36,14,16,2,44,1,12,3,48,14,8,4,1,2,92,12,6,1,2,
  1,157,12,21,4,55,2,1,7,2,2,2,3,9,1,10,2,2,7,3,5,67,9,1,1,2,1,1,4,1,5,1,1,14,2,82,18,23,1,81,20,235,7,2,9,27,2,82,17,
  106,13,101,15,256,15,245,6,1,2,2,4,1,1,1,2,141,7,2,7,3,1,28,10,40,7,1,4,8,1,9,11,46,16,198,8,199,8,1,8,82,22,1,14,122,
  6,3,1,1,2,1,7,1,1,66,5,1,2,1,5,347,4,9,2,1,1,48,7,3,5,23,1,5349,1,6,15,11464,18,2496,5,59,7,1048,1,1,55,7,4,81,1,11,2,
  19627,2,4705,46,2,23,542,5,3,6,8,8,2,7,30,4,148,3,1979,55,4,50,8,1,14,1,22,5,1,15,1360,7,1,17,2,7,1,2,1,5,100,1,160,7,
  375,1,61,4,508,4,254,2,243,1,2,1,7,2,5,1,474,7,109,7,792501,240]

/-- What is alphabetic, but does not start an identifier. -/
def otherAlphabetic : List Nat := [
  837,1,29,13,576,14,1,1,1,2,1,2,1,1,72,11,48,13,1,7,16,1,101,7,4,4,2,2,4,1,35,1,30,16,102,11,101,2,3,9,1,3,1,4,106,1,
  60,12,3,7,6,20,54,2,2,15,1,2,5,3,10,2,29,3,58,7,2,2,2,2,10,1,10,2,29,3,58,5,4,2,2,2,4,1,30,2,3,1,11,3,58,8,1,3,1,2,21,
  2,22,3,4,3,58,7,2,2,2,2,9,2,10,2,30,1,59,5,3,3,1,3,10,1,40,5,57,7,1,3,1,3,8,2,11,2,29,3,58,7,1,3,1,3,8,2,11,2,15,1,12,
  4,58,7,1,3,1,3,10,1,10,2,29,3,75,6,1,1,1,8,18,2,61,1,2,7,18,1,99,1,2,6,1,2,16,1,163,19,9,11,1,36,110,12,1,1,2,4,23,4,
  4,3,1,3,2,7,3,4,13,12,1,1,10,4,1652,2,30,2,30,2,30,2,66,19,224,1,118,12,4,9,222,5,57,10,2,20,74,2,11,3,49,5,48,15,60,
  3,30,9,2,2,57,11,50,19,412,34,1729,52,2294,32,47,1,30788,8,34,2,354,1,8,1,23,5,88,2,50,16,1,1,57,1,38,5,28,12,45,4,48,
  12,37,1,67,14,12,1,8,2,45,3,50,1,1,3,2,2,5,1,44,5,5,1,237,8,20275,1,2135,5,1670,3,1,2,5,4,788,4,65,1,321,2,77,3,259,3,
  53,14,45,2,11,3,45,9,9,1,61,3,36,12,18,2,57,3,48,13,14,2,92,9,2,1,6,1,2,1,157,10,23,4,58,7,2,2,2,2,10,1,10,2,84,9,1,1,
  2,1,1,4,1,2,103,13,1,3,106,18,237,7,2,7,29,2,82,15,1,1,106,11,103,14,257,13,247,6,1,2,2,2,3,1,1,1,142,7,2,6,4,1,28,10,
  42,5,1,4,18,11,46,14,200,8,199,8,1,7,83,22,1,14,122,6,3,1,1,2,1,3,1,1,3,1,66,5,1,2,1,4,348,4,9,2,1,1,48,7,3,3,16861,
  17,3616,1,1,55,7,4,93,2,19628,1,9057,7,1,17,2,7,1,2,1,5,100,1,1619,1,2,1,7,2,5,1,593,1,2024,26,6,26,6,26]

def decimalDigit : List Nat := [
  1632,10,134,10,198,10,412,10,118,10,118,10,118,10,118,10,118,10,118,10,118,10,118,10,118,10,96,10,118,10,70,10,278,10,
  70,10,1862,10,38,10,300,10,128,10,166,10,6,10,182,10,86,10,134,10,6,10,35270,10,678,10,38,10,198,10,22,10,86,10,406,
  10,21270,10,1414,10,2182,10,6,10,796,10,128,10,60,10,144,10,278,10,342,10,118,10,374,10,102,10,6,20,76,10,422,10,102,
  10,662,10,86,10,246,10,70,10,54,10,358,10,16854,10,2342,10,86,10,134,10,534,10,24438,10,2772,50,2368,10,422,10,502,10,
  247,10,853,10,4758,10]

def otherNumber : List Nat := [
  178,2,5,1,2,3,2357,6,376,6,120,3,133,7,217,7,17,9,433,10,1077,20,881,3,255,10,480,1,1685,1,3,6,6,10,198,51,2,5,726,60,
  78,22,630,30,1385,1,777,1,25,9,14,3,343,4,138,10,30,8,1,15,32,10,39,15,29734,10,320,6,22737,45,12,57,17,2,341,27,36,4,
  29,1,8,1,134,5,1154,8,25,7,39,9,75,5,22,6,160,2,2,16,2,46,64,9,52,2,30,3,75,5,104,8,24,8,41,7,330,6,352,31,158,10,42,
  4,112,7,134,20,379,20,1349,2,430,9,871,19,851,21,1067,111,18156,7,798,23,349,3,25289,20,12,20,108,25,5454,9,929,59,1,
  3,1,4,76,45,1,15,962,13]

def titlecase : List Nat := [453,1,2,1,2,1,38,1,7573,8,8,8,8,8,12,1,15,1,47,1]

/-- What is uppercase, but has no single lower-case image. -/
def otherUppercase : List Nat := [
  304,1,673,3,7469,1,4,1,3,3,2,3,2,1,3,5,6,1,3,1,3,2,2,2,1,1,10,2,5,1,111290,26,26,26,26,26,26,1,1,2,2,1,2,2,2,4,1,8,26,
  26,26,2,1,4,2,8,1,7,27,2,1,4,1,5,1,1,3,7,27,26,26,26,26,26,26,26,26,26,26,26,30,25,33,25,33,25,33,25,33,25,33,1,6501,
  26,6,26,6,26]

/-- What is lowercase, but has no single upper-case image. -/
def otherLowercase : List Nat := [
  170,1,15,1,125,1,16,1,67,1,28,2,14,1,3,1,49,1,48,1,18,6,27,1,2,1,1,1,2,3,2,1,4,1,5,2,1,1,2,2,1,7,1,2,1,1,2,3,6,5,1,1,
  2,7,2,26,7,2,30,5,149,1,21,1,31,1,75,1,355,1,38,2,2931,1,3075,121,1,3,1,16,1,49,214,5,1,2,1,1,176,1,1,1,1,1,1,1,91,1,
  1,1,1,2,10,1,1,1,1,2,10,2,2,2,10,3,1,2,10,1,1,1,1,2,121,1,13,1,16,13,109,1,3,2,3,1,27,1,4,1,4,1,2,2,8,4,2855,1,2,1,2,
  7,102,1,31159,2,146,2,62,9,21,1,6,1,25,1,65,4,3,3,821,35,1,7,1,14,20374,7,12,5,3176,1,2,3,1,42,1,9,52319,26,26,7,1,18,
  26,26,26,4,1,1,1,7,1,11,26,26,26,26,26,26,26,26,26,26,26,26,26,26,26,26,26,28,28,25,1,6,26,25,1,6,26,25,1,6,26,25,1,6,
  26,25,1,6,1,1,1844,10,1,20,6,6,261,62]

def caseIgnorable : List Nat := [
  39,1,6,1,11,1,35,1,1,1,71,1,4,1,1,1,4,1,2,2,503,192,4,2,4,1,9,2,1,1,251,7,207,1,5,1,49,45,1,1,1,2,1,2,1,1,44,1,11,6,
  10,11,1,1,35,1,10,21,16,1,101,8,1,10,1,4,33,1,1,1,30,27,91,11,58,11,4,1,2,1,24,24,43,3,44,1,7,2,5,9,41,58,55,1,1,1,4,
  8,4,1,3,7,10,2,13,1,15,1,58,1,4,4,8,1,20,2,26,1,2,2,57,1,4,2,4,2,2,3,3,1,30,2,3,1,11,2,57,1,4,5,1,2,4,1,20,2,22,6,1,1,
  58,1,2,1,1,4,8,1,7,2,11,2,30,1,61,1,12,1,50,1,3,1,55,1,1,3,5,3,1,4,7,2,11,2,29,1,58,1,2,1,6,1,5,2,20,2,28,2,57,2,4,4,
  8,1,20,2,29,1,72,1,7,3,1,1,90,1,2,7,11,9,98,1,2,9,9,1,1,7,73,2,27,1,1,1,1,1,55,14,1,5,1,2,5,11,1,36,9,1,102,4,1,6,1,2,
  2,2,25,2,4,3,16,4,13,1,2,2,6,1,15,1,94,1,608,3,946,3,29,2,30,2,30,2,64,2,1,7,8,1,2,11,3,1,5,1,45,5,51,1,65,2,34,1,118,
  3,4,2,9,1,6,3,219,2,2,1,58,1,1,7,1,1,1,1,2,8,6,10,2,1,39,1,8,46,2,12,20,4,48,1,1,5,1,1,5,1,40,9,12,2,32,4,2,2,1,3,56,
  1,1,2,3,1,1,3,58,8,2,2,64,6,82,3,1,13,1,7,4,1,6,1,3,2,50,63,13,1,34,101,445,1,1,3,11,3,13,3,13,3,13,2,12,5,8,2,10,1,2,
  1,2,5,49,5,1,10,1,1,13,1,16,13,51,33,2955,2,113,3,125,1,15,1,96,32,47,1,469,1,36,4,3,5,5,1,93,6,93,3,28438,1,1250,6,
  270,1,98,4,1,10,1,1,28,4,80,2,14,34,78,1,23,3,102,4,3,2,8,1,3,1,4,1,25,2,5,1,151,2,26,18,13,1,38,8,25,11,46,3,48,1,2,
  4,2,2,17,1,21,2,66,6,2,2,2,2,12,1,8,1,35,1,11,1,51,1,1,3,2,2,5,2,1,1,27,1,14,2,5,2,1,1,100,5,9,3,121,1,2,1,4,1,20272,
  1,147,17,573,16,3,1,12,16,34,1,2,1,169,1,7,1,6,1,11,1,35,1,1,1,47,1,45,2,67,1,21,3,513,1,226,1,149,5,1029,6,1,42,1,9,
  582,3,1,2,5,4,40,3,4,1,165,2,573,4,38,1,26,5,1,1,315,2,24,1,52,6,70,11,49,4,123,1,54,15,41,1,2,2,10,3,49,4,2,2,2,1,4,
  1,10,1,50,3,36,5,1,8,62,1,12,2,52,9,10,4,2,1,95,3,2,1,1,2,6,1,2,1,157,1,3,8,21,2,57,2,3,1,37,7,3,5,70,6,13,1,1,1,1,1,
  14,2,85,8,2,3,1,1,23,1,84,6,1,1,4,2,1,2,238,4,6,2,1,2,27,2,85,8,2,1,1,2,106,1,1,1,2,6,1,1,101,1,1,1,2,4,1,5,259,9,1,2,
  256,2,1,1,4,1,144,4,2,2,4,1,32,10,40,6,2,4,8,1,9,6,2,3,46,13,1,2,198,1,1,3,1,1,201,7,1,6,1,1,82,22,2,7,1,2,1,2,122,6,
  3,1,1,2,1,7,1,1,72,2,3,1,1,1,65,1,281,2,11,2,52,5,5,1,1,1,23,1,5333,17,6,15,11464,12,3,3,2496,5,59,7,9,4,508,3,40,2,
  482,1,63,17,64,2,1,2,13,2,16380,4,1,7,1,2,3230,2,1,4,4700,46,2,23,544,3,9,16,2,7,30,4,148,3,1979,55,4,50,8,1,14,1,22,
  5,1,15,1360,7,1,17,2,7,1,2,1,5,5,62,33,1,160,14,368,1,61,4,507,5,254,2,243,1,2,1,7,2,5,1,9,1,464,7,109,8,2735,5,
  789505,1,30,96,128,240]

end Polyview.Text.Table
