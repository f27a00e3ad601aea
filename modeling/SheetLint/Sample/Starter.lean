/-!
# Starter texts

The document and the stylesheet that a new editing session begins with.

Main results:

- Definitions `starterDocument` and `starterStylesheet`.  A line break stands between the
  lines of the document, and behind every line of the stylesheet.
-/

namespace SheetLint.Sample

/-! ## The document -/

/-- The lines of the starter document. -/
def documentLines : List String :=
  [
    "<!DOCTYPE html>",
    "<html lang=\"en\">",
    "<head>",
    "  <meta charset=\"UTF-8\">",
    "  <meta name=\"viewport\" content=\"width=device-width, initial-scale=1.0\">",
    "  <title>Document</title>",
    "  <style>",
    "    /* Write your CSS here */",
    "  </style>",
    "</head>",
    "<body>",
    "  <!-- Write your HTML here -->",
    "</body>",
    "</html>"]

/-- The starter document. -/
def starterDocument : String :=
  String.intercalate "\n" documentLines

/-! ## The stylesheet -/

/-- The lines of the starter stylesheet. -/
def stylesheetLines : List String :=
  [
    "/* Reset styles */",
    "* \x7b",
    "  margin: 0;",
    "  padding: 0;",
    "  box-sizing: border-box;",
    "\x7d",
    "",
    "/* Basic styles */",
    "body \x7b",
    "  font-family: Arial, sans-serif;",
    "  line-height: 1.6;",
    "\x7d",
    "",
    "/* Header styles */",
    "header \x7b",
    "  background-color: #333;",
    "  color: #fff;",
    "  padding: 10px;",
    "\x7d",
    "",
    "nav ul \x7b",
    "  list-style-type: none;",
    "  display: flex;",
    "\x7d",
    "",
    "nav ul li \x7b",
    "  margin-right: 20px;",
    "\x7d",
    "",
    "nav ul li a \x7b",
    "  color: #fff;",
    "  text-decoration: none;",
    "\x7d",
    "",
    "/* Main content styles */",
    "main \x7b",
    "  padding: 20px;",
    "\x7d",
    "",
    "section \x7b",
    "  margin-bottom: 40px;",
    "\x7d",
    "",
    "/* Footer styles */",
    "footer \x7b",
    "  background-color: #333;",
    "  color: #fff;",
    "  text-align: center;",
    "  padding: 10px;",
    "\x7d",
    "",
    "/* Responsive styles */",
    "@media (max-width: 768px) \x7b",
    "  nav ul \x7b",
    "    flex-direction: column;",
    "  \x7d",
    "",
    "  nav ul li \x7b",
    "    margin-right: 0;",
    "    margin-bottom: 10px;",
    "  \x7d",
    "\x7d"]

/-- The starter stylesheet. -/
def starterStylesheet : String :=
  String.join (stylesheetLines.map fun line => line ++ "\n")

end SheetLint.Sample
