import NextEdit.Text.Basic

/-! The literal markers of the prompt formats. Models know them byte for byte. -/
namespace NextEdit.Marker

def cursor : Text := "<|user_cursor|>".toList

def fimPrefix : Text := "<|fim_prefix|>".toList
def fimSuffix : Text := "<|fim_suffix|>".toList
def fimMiddle : Text := "<|fim_middle|>".toList
def fileSeparator : Text := "<|file_sep|>".toList

def mergeStart : Text := "<<<<<<< CURRENT\n".toList
def mergeSeparator : Text := "=======\n".toList
def mergeEnd : Text := ">>>>>>> UPDATED\n".toList

def seedSuffix : Text := "<[fim-suffix]>".toList
def seedPrefix : Text := "<[fim-prefix]>".toList
def seedMiddle : Text := "<[fim-middle]>".toList
def seedFile : Text := "<filename>".toList

def legacyCursor : Text := "<|user_cursor_is_here|>".toList
def startOfFile : Text := "<|start_of_file|>".toList
def regionStart : Text := "<|editable_region_start|>".toList
def regionEnd : Text := "<|editable_region_end|>".toList

/-- Stands where rows of a related file are left out. -/
def ellipsis : Text := "...\n".toList

/-- Stands above a change that is an accepted prediction. -/
def predictionAccepted : Text := "// User accepted prediction:\n".toList

end NextEdit.Marker
