/-!
The ASCII marks that the formats of texts are made of.
-/

namespace QuoteFeed

namespace Ascii

@[match_pattern] abbrev tab : UInt8 := 9
@[match_pattern] abbrev lineFeed : UInt8 := 10
@[match_pattern] abbrev carriageReturn : UInt8 := 13
@[match_pattern] abbrev space : UInt8 := 32
@[match_pattern] abbrev quoteMark : UInt8 := 34
@[match_pattern] abbrev plus : UInt8 := 43
@[match_pattern] abbrev comma : UInt8 := 44
@[match_pattern] abbrev minus : UInt8 := 45
@[match_pattern] abbrev point : UInt8 := 46
@[match_pattern] abbrev slash : UInt8 := 47
@[match_pattern] abbrev zero : UInt8 := 48
@[match_pattern] abbrev nine : UInt8 := 57
@[match_pattern] abbrev colon : UInt8 := 58
@[match_pattern] abbrev upperA : UInt8 := 65
@[match_pattern] abbrev upperE : UInt8 := 69
@[match_pattern] abbrev upperF : UInt8 := 70
@[match_pattern] abbrev upperT : UInt8 := 84
@[match_pattern] abbrev upperZ : UInt8 := 90
@[match_pattern] abbrev openBracket : UInt8 := 91
@[match_pattern] abbrev backslash : UInt8 := 92
@[match_pattern] abbrev closeBracket : UInt8 := 93
@[match_pattern] abbrev lowerA : UInt8 := 97
@[match_pattern] abbrev lowerB : UInt8 := 98
@[match_pattern] abbrev lowerE : UInt8 := 101
@[match_pattern] abbrev lowerF : UInt8 := 102
@[match_pattern] abbrev lowerN : UInt8 := 110
@[match_pattern] abbrev lowerR : UInt8 := 114
@[match_pattern] abbrev lowerT : UInt8 := 116
@[match_pattern] abbrev lowerU : UInt8 := 117
@[match_pattern] abbrev openBrace : UInt8 := 123
@[match_pattern] abbrev closeBrace : UInt8 := 125

end Ascii

end QuoteFeed
