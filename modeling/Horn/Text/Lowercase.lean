import Horn.Text.CharRange

namespace Horn.Text

/-- The lowercase characters above the ASCII block, in increasing order of their first member. -/
def lowercaseRanges : List CharRange :=
  strides 0 [170,1,1,10,1,1,4,1,1,36,24,1,1,8,1,1,53,2,1,2,1,1,13,2,1,2,1,1,45,2,2,1,1,1,1,1,1,3,1,
    2,1,1,1,1,1,2,1,1,3,2,1,4,1,1,2,1,1,3,3,1,2,1,1,2,5,2,2,1,1,1,2,1,1,1,1,2,1,1,3,1,1,1,1,1,2,2,1,
    2,3,1,6,1,1,2,1,1,2,15,2,1,2,1,1,15,2,1,2,1,2,1,1,1,1,1,3,57,2,1,7,1,2,1,1,2,2,1,1,1,1,4,7,2,1,
    69,1,2,35,1,7,2,1,30,5,1,96,1,1,43,1,1,1,1,1,3,1,1,2,4,1,18,1,1,27,35,1,1,2,1,3,3,1,1,21,2,1,5,
    1,1,1,1,2,1,1,2,2,1,51,48,1,1,33,2,9,53,2,2,11,2,1,2,1,1,95,2,48,41,1,2887,43,1,1,4,1,760,6,1,
    2178,9,1,1,1,1,117,192,1,65,147,2,1,9,1,1,95,2,1,9,1,8,6,1,10,8,1,8,8,1,8,6,1,10,8,1,8,8,1,8,14,
    1,2,8,1,8,8,1,8,8,1,8,5,1,1,2,1,6,1,1,3,3,1,1,2,1,8,4,1,2,2,1,8,8,1,10,3,1,1,2,1,121,1,1,13,1,1,
    16,13,1,109,1,1,3,2,1,3,1,1,27,1,1,4,1,1,4,1,1,2,2,1,8,4,1,4,1,1,33,16,1,4,1,1,843,26,1,1862,48,
    1,1,1,1,3,2,1,1,5,2,4,1,1,1,2,1,1,8,1,3,97,2,1,2,1,7,1,1,1,1,1,4,1,1,12,38,1,1,1,1,5,1,1,30995,
    45,2,19,25,2,1,3,1,133,11,2,1,3,1,1,59,2,1,10,1,1,1,1,1,1,1,2,9,2,4,1,1,1,1,1,2,1,1,1,3,1,1,19,
    2,5,1,1,5,15,2,4,1,1,1,1,1,2,15,2,21,4,1,1,1,1,1,3,1,821,43,1,1,14,1,6,80,1,20288,7,1,12,5,1,
    1065,26,1,1229,40,1,136,36,1,155,11,1,1,15,1,1,7,1,1,2,1,451,1,1,2,3,1,1,42,1,1,9,1,1285,51,1,
    125,22,1,2874,32,1,21888,32,1,59,25,1,25926,26,1,26,7,1,1,18,1,26,26,1,26,4,1,1,1,1,1,7,1,1,11,
    1,26,26,1,26,26,1,26,26,1,26,26,1,26,26,1,26,26,1,26,26,1,26,26,1,26,28,1,28,25,1,1,6,1,26,25,1,
    1,6,1,26,25,1,1,6,1,26,25,1,1,6,1,26,25,1,1,6,1,1,1,1,1844,10,1,1,20,1,6,6,1,261,62,1,2228,34,1]

end Horn.Text
