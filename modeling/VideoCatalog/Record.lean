/-!
The record of one video, as clients submit it: a flat list of fields and the media variants in the
order in which the source listed them. Every field has a default, so a record can be given in part.
-/

namespace VideoCatalog

/-- One downloadable variant of a video. -/
structure Media where
  url : String := ""
  dataSize : Int64 := 0
  quality : String := ""
  extension : String := ""
  kind : String := ""
  duration : Option Int32 := none
  deriving DecidableEq

/-- What is known about one video. -/
structure Record where
  id : Int64 := 0
  url : String := ""
  source : String := ""
  uniqueId : String := ""
  author : String := ""
  title : String := ""
  thumbnail : String := ""
  duration : Int32 := 0
  medias : List Media := []
  kind : String := ""
  error : Bool := false
  timeEnd : Int32 := 0
  deriving DecidableEq

end VideoCatalog
