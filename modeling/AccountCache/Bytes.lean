namespace AccountCache

abbrev Bytes := List UInt8

namespace Bytes

def ofString (s : String) : Bytes := s.toUTF8.toList

end Bytes
end AccountCache
