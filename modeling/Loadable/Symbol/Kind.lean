namespace Loadable

-- The type of a symbol, from the low half of its `st_info`.
inductive SymbolKind
  | noType
  | object
  | func
  | sect
  | file
  | common
  | tls
  | relc
  | srelc
  | gnuIfunc
  | hiOs
  | loProc
  | hiProc
  | unknown (raw : UInt8)
deriving DecidableEq

namespace SymbolKind

def ofRaw (raw : UInt8) : SymbolKind :=
  match raw.toNat with
  | 0 => noType
  | 1 => object
  | 2 => func
  | 3 => sect
  | 4 => file
  | 5 => common
  | 6 => tls
  | 8 => relc
  | 9 => srelc
  | 10 => gnuIfunc
  | 12 => hiOs
  | 13 => loProc
  | 15 => hiProc
  | _ => unknown raw

-- Stands in a module for every type that has no code of its own.
def unknownCode : UInt32 := 0xFFFFFFFF

def code : SymbolKind → UInt32
  | noType => 0
  | object => 1
  | func => 2
  | sect => 3
  | file => 4
  | common => 5
  | tls => 6
  | relc => 8
  | srelc => 9
  | gnuIfunc => 10
  | hiOs => 12
  | loProc => 13
  | hiProc => 15
  | unknown _ => unknownCode

def name : SymbolKind → String
  | noType => "STT_NOTYPE"
  | object => "STT_OBJECT"
  | func => "STT_FUNC"
  | sect => "STT_SECTION"
  | file => "STT_FILE"
  | common => "STT_COMMON"
  | tls => "STT_TLS"
  | relc => "STT_RELC"
  | srelc => "STT_SRELC"
  | gnuIfunc => "STT_GNU_IFUNC"
  | hiOs => "STT_HIOS"
  | loProc => "STT_LOPROC"
  | hiProc => "STT_HIPROC"
  | unknown _ => "unknown"

end SymbolKind

end Loadable
