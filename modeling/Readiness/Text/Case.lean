import Readiness.Text.Printable

/-!
# Upper-case texts

`isUpper` and `isLower` decide by tables of runs whether a character is upper case and whether it is
lower case or title case. `isUpperText` holds for texts with an upper-case character and no
lower-case one.
-/

namespace Readiness.Text

/-! The gaps and runs from the first character after the plain ones on. Beside the runs of adjacent
characters there are those where every second character counts. -/

def upperRuns : List Nat :=
  numbers "64 23 1 7 162 2 7 2 2 4 1 2 1 3 3 2 1 2 17 2 4 1 3 1 7 1 2 1 2 1 38 1 5 2 65 2 1 2 5 3
    303 1 8 1 9 2 7 16 1 9 35 1 2 3 31 1 5 1 2 51 257 38 2889 38 1 1 5 1 722 86 2202 43 2 3 584 8
    8 6 10 8 8 8 8 6 26 8 72 4 12 4 12 4 12 5 11 4 262 1 4 1 3 3 2 3 2 1 3 5 13 3 2 4 10 2 5 1 26
    16 19 1 818 26 1840 48 51 2 9 3 1 1 2 1 8 3 113 1 31416 4 1 5 16 3 1 1 6 1 36 1 22315 26 1221
    40 136 36 156 11 1 15 1 7 1 2 1770 51 3053 32 21888 32 26016 26 26 26 26 26 29 1 2 1 2 2 2 4 1
    8 26 26 26 2 1 4 2 8 1 7 27 2 1 4 1 5 1 1 3 7 27 26 26 26 26 26 26 26 26 26 26 26 30 25 33 25
    33 25 33 25 33 25 33 1 4405 34 2062 26 6 26 6 26"

def upperAlternations : List Nat :=
  numbers "128 55 2 15 2 47 0 5 6 3 0 3 24 5 0 3 2 3 0 3 3 3 21 15 2 17 5 3 3 57 14 3 4 7 289 3 19
    3 3 3 0 3 70 23 8 3 102 33 9 55 0 13 2 95 6353 149 9 97 90 7 452 7 2869 3 4 7 20 97 8 3 31058
    45 19 27 135 13 3 61 10 5 0 9 4 3 2 3 3 21 11 15 17 3 76995 3"

def lowerRuns : List Nat :=
  numbers "42 1 10 1 4 1 36 24 1 8 127 2 7 1 3 2 4 1 2 1 3 3 2 1 17 1 8 2 2 3 5 2 1 2 1 2 103 6 2
    1 2 2 1 1 13 68 1 36 7 2 30 5 96 1 49 1 2 4 18 1 27 35 1 2 3 3 24 4 1 1 2 1 2 2 51 48 256 41
    2887 43 2 3 760 6 2178 9 119 192 214 8 98 8 8 6 10 8 8 8 8 6 10 8 8 8 8 14 2 53 1 2 10 3 1 2 4
    1 3 4 2 2 8 8 10 3 1 2 4 1 116 1 13 1 16 13 109 1 3 2 3 1 27 1 4 1 4 1 2 2 8 4 4 1 33 16 4 1
    843 26 1862 48 1 1 3 2 16 7 102 1 14 1 12 38 1 1 5 1 31086 2 146 2 62 9 27 2 25 1 73 2 821 43
    1 13 7 80 20288 7 12 5 1065 26 1229 40 136 36 155 11 1 15 1 7 1 2 451 1 2 3 1 42 1 9 1285 51
    3021 32 21888 32 26010 26 26 7 1 18 26 26 26 4 4 6 1 11 26 26 26 26 26 26 26 26 26 26 26 26 26
    26 26 26 26 28 28 25 1 6 26 25 1 6 26 25 1 6 26 25 1 6 26 25 1 6 1 1 1844 10 1 20 2563 34"

def lowerAlternations : List Nat :=
  numbers "129 55 0 17 0 47 2 5 4 3 27 5 2 3 0 3 6 3 23 15 0 19 0 3 0 3 3 59 19 9 289 3 101 23 113
    33 9 53 2 13 0 97 6353 149 9 97 188 3 3241 5 4 3 0 3 10 99 8 3 31058 45 19 27 135 13 3 61 10 3
    2 9 4 3 2 3 3 19 11 15 4 3 6 9 28 3 76994 3"

def isUpper (c : Char) : Bool :=
  let n := c.toNat
  if n < 0x80 then c.isUpper
  else inRun 1 upperRuns (n - 0x80) || inRun 2 upperAlternations (n - 0x80)

def isLower (c : Char) : Bool :=
  let n := c.toNat
  if n < 0x80 then c.isLower
  else inRun 1 lowerRuns (n - 0x80) || inRun 2 lowerAlternations (n - 0x80)

def isUpperText (s : String) : Bool :=
  s.toList.any isUpper && !s.toList.any isLower

end Readiness.Text
