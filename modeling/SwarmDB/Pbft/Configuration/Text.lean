import SwarmDB.Pbft.Configuration

namespace SwarmDB.Pbft

section Text

-- JsonCpp's styled text of a configuration, with the line ends and quotes it is given: protobuf prints
-- them with a backslash.

def styledValue (quote : String) : Json → String
  | .string value => quote ++ value ++ quote
  | .integer value => toString value
  | .null | .bool _ | .real _ _ | .array _ | .object _ => "null"

def styledPeer (line quote : String) : Json → String
  | .object members => "      \x7b" ++ line ++ String.intercalate ("," ++ line) (members.map fun member =>
      "         " ++ quote ++ member.1 ++ quote ++ " : " ++ styledValue quote member.2) ++ line ++ "      \x7d"
  | .null | .bool _ | .integer _ | .real _ _ | .string _ | .array _ => "      null"

def styledPeers (line quote : String) : Json → String
  | .array [] => "[]"
  | .array elements =>
    "[" ++ line ++ String.intercalate ("," ++ line) (elements.map (styledPeer line quote)) ++ line ++ "   ]"
  | .null | .bool _ | .integer _ | .real _ _ | .string _ | .object _ => "null"

def styled (line quote : String) (json : Json) : String :=
  "\x7b" ++ line ++ "   " ++ quote ++ "peers" ++ quote ++ " : " ++
    styledPeers line quote ((json.member "peers").getD .null) ++ line ++ "\x7d" ++ line

def toStyledText (json : Json) : String := styled "\n" "\"" json

def textHash (text : String) : Nat :=
  text.toByteArray.data.toList.foldl (fun hash byte => (31 * hash + byte.toNat) % 2 ^ 64) 7

-- A reader that knows the texts of these values, beside a writer for configurations.
def writtenCodec (known : List Json) : Codec where
  parse text := .ok (known.find? fun json => toStyledText json == text)
  toStyledString := toStyledText
  stdHash := textHash

end Text

end SwarmDB.Pbft
