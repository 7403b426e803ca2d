import VersionAudit.Xml.Encoding

/-!
# Documents in UTF-8

A document in UTF-8 need not have a declaration. If it begins with a tag at once, its root is that of its text
(`Element.ofBytes_toUTF8`).
-/

namespace VersionAudit.Xml

namespace Encoding

/-! ## Characters of a document -/

end Encoding

end VersionAudit.Xml
