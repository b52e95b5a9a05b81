/-!
# Quoted texts

Messages set the texts they speak about in apostrophes.
-/

namespace AvroSchema.Text

/-- A text between apostrophes, with nothing escaped. -/
def quoted (text : String) : String :=
  "'" ++ text ++ "'"

end AvroSchema.Text
