/-!
# Failures of the encoded form
-/

namespace LazyCollections

set_option autoImplicit false

inductive CodecError where
  | encodingFailed (text : String)
  | decodingFailed (text : String)
  | floatForbidden
  | integerOverflow
  | duplicateKey (key : String)
  | trailingBytes (count : Nat)
  | unsupportedType (name : String)
deriving DecidableEq

namespace CodecError

def kind : CodecError → String
  | encodingFailed _ => "EncodingFailed"
  | decodingFailed _ => "DecodingFailed"
  | floatForbidden => "FloatForbidden"
  | integerOverflow => "IntegerOverflow"
  | duplicateKey _ => "DuplicateKey"
  | trailingBytes _ => "TrailingBytes"
  | unsupportedType _ => "UnsupportedType"

def message : CodecError → String
  | encodingFailed text => "encoding failed: " ++ text
  | decodingFailed text => "decoding failed: " ++ text
  | floatForbidden => "float values are forbidden"
  | integerOverflow => "integer overflow"
  | duplicateKey key => "duplicate map key: " ++ key
  | trailingBytes count => toString count ++ " trailing bytes after value"
  | unsupportedType name => "unsupported CBOR type: " ++ name

end CodecError

end LazyCollections
