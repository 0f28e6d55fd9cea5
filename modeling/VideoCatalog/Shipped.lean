import VideoCatalog.Text.Blank

/-!
The grammars that come with the catalogue. The schema has the children of an item in a fixed order;
the pattern grammar allows them in any order.
-/

namespace VideoCatalog.Shipped

/-- The lines of the schema. -/
def schemaLines : List String :=
  ["<?xml version=\"1.0\" encoding=\"UTF-8\"?>",
    "<!-- Content model of one video metadata item, children in fixed order -->",
    "<xs:schema xmlns:xs=\"http://www.w3.org/2001/XMLSchema\">",
    "",
    "  <xs:element name=\"item\" type=\"ItemType\"/>",
    "",
    "  <xs:complexType name=\"ItemType\">",
    "    <xs:sequence>",
    "      <xs:element name=\"url\" type=\"xs:string\"/>",
    "      <xs:element name=\"source\" type=\"xs:string\"/>",
    "      <xs:element name=\"id\" type=\"xs:long\"/>",
    "      <xs:element name=\"unique_id\" type=\"xs:string\"/>",
    "      <xs:element name=\"author\" type=\"xs:string\"/>",
    "      <xs:element name=\"title\" type=\"xs:string\"/>",
    "      <xs:element name=\"thumbnail\" type=\"xs:string\"/>",
    "      <xs:element name=\"duration\" type=\"xs:int\"/>",
    "      <xs:element name=\"medias\" type=\"MediaListType\"/>",
    "      <xs:element name=\"type\" type=\"xs:string\"/>",
    "      <xs:element name=\"error\" type=\"xs:boolean\"/>",
    "      <xs:element name=\"time_end\" type=\"xs:int\"/>",
    "    </xs:sequence>",
    "  </xs:complexType>",
    "",
    "  <xs:complexType name=\"MediaListType\">",
    "    <xs:sequence>",
    "      <xs:element name=\"media\" type=\"MediaType\" minOccurs=\"0\" maxOccurs=\"unbounded\"/>",
    "    </xs:sequence>",
    "  </xs:complexType>",
    "",
    "  <xs:complexType name=\"MediaType\">",
    "    <xs:sequence>",
    "      <xs:element name=\"url\" type=\"xs:string\"/>",
    "      <xs:element name=\"data_size\" type=\"xs:long\"/>",
    "      <xs:element name=\"quality\" type=\"xs:string\"/>",
    "      <xs:element name=\"extension\" type=\"xs:string\"/>",
    "      <xs:element name=\"type\" type=\"xs:string\"/>",
    "      <xs:element name=\"duration\" type=\"xs:int\" minOccurs=\"0\"/>",
    "    </xs:sequence>",
    "  </xs:complexType>",
    "",
    "</xs:schema>"]

/-- The lines of the pattern grammar. -/
def patternLines : List String :=
  ["<?xml version=\"1.0\" encoding=\"UTF-8\"?>",
    "<!-- Pattern grammar for one video metadata item; item children may appear in any order -->",
    "<grammar xmlns=\"http://relaxng.org/ns/structure/1.0\"",
    "         datatypeLibrary=\"http://www.w3.org/2001/XMLSchema-datatypes\">",
    "",
    "  <start>",
    "    <ref name=\"item\"/>",
    "  </start>",
    "",
    "  <define name=\"item\">",
    "    <element name=\"item\">",
    "      <interleave>",
    "        <element name=\"url\"><text/></element>",
    "        <element name=\"source\"><text/></element>",
    "        <element name=\"id\"><data type=\"long\"/></element>",
    "        <element name=\"unique_id\"><text/></element>",
    "        <element name=\"author\"><text/></element>",
    "        <element name=\"title\"><text/></element>",
    "        <element name=\"thumbnail\"><text/></element>",
    "        <element name=\"duration\"><data type=\"int\"/></element>",
    "        <element name=\"medias\">",
    "          <zeroOrMore>",
    "            <ref name=\"media\"/>",
    "          </zeroOrMore>",
    "        </element>",
    "        <element name=\"type\"><text/></element>",
    "        <element name=\"error\"><data type=\"boolean\"/></element>",
    "        <element name=\"time_end\"><data type=\"int\"/></element>",
    "      </interleave>",
    "    </element>",
    "  </define>",
    "",
    "  <define name=\"media\">",
    "    <element name=\"media\">",
    "      <element name=\"url\"><text/></element>",
    "      <element name=\"data_size\"><data type=\"long\"/></element>",
    "      <element name=\"quality\"><text/></element>",
    "      <element name=\"extension\">",
    "        <data type=\"token\">",
    "          <param name=\"pattern\">[a-z0-9]+</param>",
    "        </data>",
    "      </element>",
    "      <element name=\"type\"><text/></element>",
    "      <optional>",
    "        <element name=\"duration\"><data type=\"int\"/></element>",
    "      </optional>",
    "    </element>",
    "  </define>",
    "",
    "</grammar>"]

/-- A text of lines. -/
def ofLines (lines : List String) : String :=
  String.join (lines.map (fun line => line ++ "\n"))

/-- The schema. -/
def schemaText : String :=
  ofLines schemaLines

/-- The pattern grammar. -/
def patternText : String :=
  ofLines patternLines

/-- The name under which the schema is known in errors. -/
def schemaName : String :=
  "<builtin metadata.xsd>"

/-- The name under which the pattern grammar is known in errors. -/
def patternName : String :=
  "<builtin metadata.rng>"

end VideoCatalog.Shipped
